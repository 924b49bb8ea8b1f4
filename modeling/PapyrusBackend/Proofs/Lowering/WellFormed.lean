import PapyrusBackend.Proofs.Container.Faults
import PapyrusBackend.Proofs.Lowering.Calls
import PapyrusBackend.Proofs.Lowering.Listings
import PapyrusBackend.Proofs.Lowering.Origin

namespace PapyrusBackend

namespace Lowering

open Source

section

variable (owner : String) (land : UInt32 → Nat) (k : Nat)

/-- An instruction that is no jump changes only its stamps. -/
theorem placed_of_target_eq_none {i : Instruction} (h : i.target = none) :
    placed owner land k i = { i with offset := k, method := owner } := by
  simp only [placed, h, Instruction.withDelta]

theorem Emitted.hasValidArity_placed {i : Instr} {j : Instruction} (h : Emitted i j) :
    (placed owner land k j).hasValidArity = true := by
  cases h with
  | plain hplain =>
    rw [placed_of_target_eq_none owner land k hplain.target]
    exact hplain.arity
  | jump hcode htarget => rfl
  | jumpIf expected condition hcode htarget => cases expected <;> rfl

end

theorem lowerMethod_hasValidArity {setting : Setting} {d : MethodDecl} {result : LoweredMethod}
    (h : lowerMethod setting d = .ok result) : result.method.HasValidArity := by
  intro j hj
  obtain hempty | ⟨segments, s, hvisit, hbody⟩ := lowerMethod_ok h
  · rw [hempty] at hj
    cases hj
  · rw [hbody] at hj
    obtain ⟨k, hk⟩ := List.mem_iff_getElem?.1 hj
    obtain ⟨_, _, ⟨_, _, hemitted⟩, rfl⟩ :=
      exists_assembled (Lower.visitAll_serves (Lower.awaits_start d _) hvisit) hk
    exact hemitted.hasValidArity_placed _ _ k

theorem StemsFrom.hasValidArity {options : Options} {program : Source.Module} {t : TypeDecl}
    {m : Method} (h : StemsFrom options program t m) : m.HasValidArity := by
  obtain hstub | ⟨d, _, result, hlower, rfl⟩ := h
  · intro j hj
    rw [hstub.code] at hj
    cases hj
  · exact lowerMethod_hasValidArity hlower

theorem hasValidArity_rename {m : Method} (h : m.HasValidArity) (name : String) :
    (m.rename name).HasValidArity := by
  simp only [Method.HasValidArity, Method.rename, Body.rename, List.forall_mem_map]
  exact h

def stateAt? (setting : Setting) (d : MethodDecl) (q : Nat) : Option Simulation :=
  match runTo setting d q, d.body[q]? with
  | .ok _ s, some i =>
    match Lower.arrive { setting.frame d with position := q } i s with
    | .ok _ s' => some s'
    | .error .. => none
  | _, _ => none

/-- The instruction at position `k` belongs to the code of a managed instruction of `d` and calls
what that one calls. All that stands in front of it in the code of the same managed instruction gets
its operands ready. -/
def IsCallFrom (setting : Setting) (d : MethodDecl) (code : List Instruction) (k : Nat)
    (j : Instruction) : Prop :=
  ∃ q i s front back callee, d.body[q]? = some i ∧ stateAt? setting d q = some s ∧
    reached? setting d q = some front ∧ emitted? setting d (q + 1) = some back ∧
    front.length ≤ k ∧ k < back.length ∧
    IsCallOf { setting.frame d with position := q } i callee s
      ((code.take k).drop front.length) j

/-- The method is what `d` has been lowered to, perhaps under the name of an accessor. -/
def LoweredFrom (setting : Setting) (d : MethodDecl) (m : Method) : Prop :=
  ∃ result, lowerMethod setting d = .ok result ∧
    (m = result.method ∨ ∃ name, m = result.method.rename name)

theorem arrive_eq {f : Frame} {i : Instr} {s s' : Simulation} {entry : List Instruction}
    (hskip : s.skipNext = false)
    (h : Lower.enter f i.offset { s with skipTo := none } = .ok entry s') :
    Lower.arrive f i s = .ok entry s' := by
  rw [Lower.arrive, bind_run (show (get : Lower Simulation) s = .ok s s from rfl),
    if_neg (Bool.eq_false_iff.1 hskip)]
  exact h

/-- A call in a segment stands behind what carries stack items over, in the code of an instruction
that is processed. -/
theorem Handled.isCallOf {f : Frame} {policy : Policy} {i : Instr} {s t : Simulation} {fate : Fate}
    {segment : Segment} (h : Handled f policy i s fate segment t) (hs : Sound s) {n : Nat}
    {j : Instruction} (hj : segment.instructions[n]? = some j) (hcall : j.opcode.isCall = true) :
    ∃ s' m callee, Lower.arrive f i s = .ok segment.entry s' ∧ n = segment.entry.length + m ∧
      OrdinaryCode (segment.code.take m) ∧ j.IsPlain ∧
      IsCallOf f i callee s' (segment.code.take m) j := by
  have hquiet (hskip : s.skipNext = false) : Quiet { s with skipTo := none } := ⟨hs, hskip, rfl⟩
  have hbehind (hentry : OrdinaryCode segment.entry) :
      ∃ m, n = segment.entry.length + m ∧ segment.code[m]? = some j := by
    obtain hn | hn := Nat.lt_or_ge n segment.entry.length
    · rw [Segment.instructions, List.getElem?_append_left hn] at hj
      rw [(hentry j (List.mem_of_getElem? hj)).call] at hcall
      cases hcall
    · rw [Segment.instructions, List.getElem?_append_right hn] at hj
      exact ⟨_, (Nat.add_sub_cancel' hn).symm, hj⟩
  cases h with
  | absorbed hskip hempty =>
    rw [hempty] at hj
    cases hj
  | dropped hskip hentry hcode hlocal hpolicy hempty =>
    obtain ⟨-, hordinary⟩ := (Lower.runs_enter i.offset).ok (hquiet hskip) hentry
    obtain ⟨m, -, hm⟩ := hbehind hordinary
    rw [hempty] at hm
    cases hm
  | processed hskip hentry hcode =>
    obtain ⟨hquiet', hordinary⟩ := (Lower.runs_enter i.offset).ok (hquiet hskip) hentry
    obtain ⟨m, hm, hj'⟩ := hbehind hordinary
    obtain ⟨hfront, hplain, callee, hisCall⟩ := Lower.step_isCallOf hquiet' hcode hj' hcall
    exact ⟨_, m, callee, arrive_eq hskip hentry, hm, hfront, hplain, hisCall⟩

theorem action_placed (owner : String) (land : UInt32 → Nat) (k : Nat) {i : Instruction}
    (h : i.target = none) : (placed owner land k i).action = i.action := by
  rw [placed_of_target_eq_none owner land k h]
  rfl

/-- Behind the entry of a segment stands its code, up to stamps. -/
theorem action_assemble {name : String} {declared : List TypedName} {segments : List Segment}
    {q m : Nat} {segment : Segment} (hsegment : segments[q]? = some segment)
    (hm : m ≤ segment.code.length) (hordinary : OrdinaryCode (segment.code.take m)) :
    (((assemble name declared segments).instructions.take
      ((frontOf segments q).length + m)).drop (frontOf segments q).length).map Instruction.action =
        (segment.code.take m).map Instruction.action := by
  apply List.ext_getElem?
  intro n
  rw [List.getElem?_map, List.getElem?_map, List.getElem?_drop]
  obtain hn | hn := Nat.lt_or_ge n m
  · have hr : segment.code[n]? = some (segment.code.get ⟨n, Nat.lt_of_lt_of_le hn hm⟩) :=
      List.getElem?_eq_getElem _
    have hmem : segment.code.get ⟨n, Nat.lt_of_lt_of_le hn hm⟩ ∈ segment.code.take m :=
      List.mem_of_getElem? ((List.getElem?_take_of_lt hn).trans hr)
    have hsame : segment.instructions[segment.entry.length + n]? =
        some (segment.code.get ⟨n, Nat.lt_of_lt_of_le hn hm⟩) := by
      rw [Segment.instructions, List.getElem?_append_right (Nat.le_add_right _ _),
        Nat.add_sub_cancel_left, hr]
    have hfetch := assemble_fetch name declared segments hsegment hsame
    rw [← Nat.add_assoc, ← length_frontOf hsegment] at hfetch
    rw [List.getElem?_take_of_lt (Nat.add_lt_add_left hn _), hfetch, List.getElem?_take_of_lt hn,
      hr, Option.map_some, Option.map_some, action_placed _ _ _ (hordinary _ hmem).target]
  · rw [List.getElem?_take_eq_none (Nat.add_le_add_left hn _), List.getElem?_take_eq_none hn]

theorem isCallFrom_assemble {setting : Setting} {d : MethodDecl} {segments : List Segment}
    {last : Simulation}
    (h : Lower.visitAll (setting.frame d) setting.policy 0 0 d.body
      (.start d setting.owner.delegateBindings) = .ok segments last)
    {k : Nat} {j : Instruction}
    (hj : (assemble d.name last.variables segments).instructions[k]? = some j)
    (hcall : j.opcode.isCall = true) :
    IsCallFrom setting d (assemble d.name last.variables segments).instructions k j := by
  have hstart := Lower.awaits_start d setting.owner.delegateBindings
  rw [assemble_getElem?, Option.map_eq_some_iff] at hj
  obtain ⟨j, hj, rfl⟩ := hj
  rw [placed_opcode] at hcall
  obtain ⟨q, segment, n, hsegment, hn, rfl⟩ := exists_segment hj
  have hq : q < d.body.length :=
    (Lower.visitAll_serves hstart h).length_eq ▸ (List.getElem?_eq_some_iff.1 hsegment).1
  have hi : d.body[q]? = some d.body[q] := List.getElem?_eq_getElem hq
  -- the visit that gave the segment
  obtain ⟨s, hrun, hnext⟩ := Lower.visitAll_take hstart h q
  obtain ⟨line, segment', t, hsegment', hvisit⟩ := hnext _ hi
  obtain rfl : segment = segment' := Option.some.inj (hsegment.symm.trans hsegment')
  obtain ⟨_, _, _, _, _, hrun', hawaits, -, -⟩ := runTo_succ h hi
  cases (show runTo setting d q = .ok (segments.take q) s from hrun).symm.trans hrun'
  obtain ⟨-, fate, hhandled, -⟩ := visit_handled hawaits hvisit
  obtain ⟨s', m, callee, harrive, rfl, hordinary, hplain, hisCall⟩ :=
    hhandled.isCallOf hawaits.sound hn hcall
  have hstate : stateAt? setting d q = some s' := by
    simp only [stateAt?, hrun', hi, harrive]
  have hlt := (List.getElem?_eq_some_iff.1 hn).1
  have hm : m ≤ segment.code.length := by
    rw [Segment.instructions, List.length_append] at hlt
    omega
  obtain ⟨front, back, hreached, hemitted, hle, hlt⟩ :=
    covers_segment h hsegment (Nat.le_add_right _ m) hlt
  cases hreached.symm.trans (reached?_eq h q)
  refine ⟨q, _, s', _, back, callee, hi, hstate, hreached, hemitted, hle, hlt, hisCall.congr ?_
    (action_placed _ _ _ hplain.target)⟩
  rw [← Nat.add_assoc, ← length_frontOf hsegment]
  exact action_assemble hsegment hm hordinary

theorem lowerMethod_isCallFrom {setting : Setting} {d : MethodDecl} {result : LoweredMethod}
    (h : lowerMethod setting d = .ok result) {k : Nat} {j : Instruction}
    (hj : result.method.body.instructions[k]? = some j) (hcall : j.opcode.isCall = true) :
    IsCallFrom setting d result.method.body.instructions k j := by
  obtain hempty | ⟨segments, s, hvisit, hbody⟩ := lowerMethod_ok h
  · rw [hempty] at hj
    cases hj
  · rw [hbody] at hj ⊢
    exact isCallFrom_assemble hvisit hj hcall

/-- A new name changes nothing but stamps. -/
theorem IsCallFrom.rename {setting : Setting} {d : MethodDecl} {code : List Instruction} {k : Nat}
    {j : Instruction} (h : IsCallFrom setting d code k j) (owner : String) :
    IsCallFrom setting d (code.map fun i => { i with method := owner }) k
      { j with method := owner } := by
  obtain ⟨q, i, s, front, back, callee, hi, hstate, hreached, hemitted, hle, hlt, hisCall⟩ := h
  refine ⟨q, i, s, front, back, callee, hi, hstate, hreached, hemitted, hle, hlt,
    hisCall.congr ?_ rfl⟩
  rw [← List.map_take, ← List.map_drop, List.map_map]
  rfl

theorem LoweredFrom.isCallFrom {setting : Setting} {d : MethodDecl} {m : Method}
    (h : LoweredFrom setting d m) {k : Nat} {j : Instruction}
    (hj : m.body.instructions[k]? = some j) (hcall : j.opcode.isCall = true) :
    IsCallFrom setting d m.body.instructions k j := by
  obtain ⟨result, hlower, rfl | ⟨name, rfl⟩⟩ := h
  · exact lowerMethod_isCallFrom hlower hj hcall
  · simp only [Method.rename, Body.rename, List.getElem?_map, Option.map_eq_some_iff] at hj
    obtain ⟨j, hj, rfl⟩ := hj
    exact (lowerMethod_isCallFrom hlower hj hcall).rename name

theorem lowerProgram_hasValidArity {options : Options} {time : UInt64} {program : Source.Module}
    {result : LoweredProgram} (h : lowerProgram options time program = .ok result) :
    ∀ m ∈ result.assembly.methods, m.HasValidArity := by
  intro m hm
  obtain ⟨t, _, made, hmade, rfl | ⟨name, rfl⟩⟩ := lowerProgram_origin h m hm
  · exact hmade.hasValidArity
  · exact hasValidArity_rename hmade.hasValidArity name

/-- A method that has code has been lowered from one of the program. -/
theorem lowerProgram_loweredFrom {options : Options} {time : UInt64} {program : Source.Module}
    {result : LoweredProgram} (h : lowerProgram options time program = .ok result) {m : Method}
    (hm : m ∈ result.assembly.methods) (hcode : m.body.instructions ≠ []) :
    ∃ t ∈ program.types, ∃ d ∈ t.methods, LoweredFrom (options.setting program t) d m := by
  obtain ⟨t, ht, made, hstub | ⟨d, hd, lowered, hlower, rfl⟩, hm⟩ := lowerProgram_origin h m hm
  · obtain rfl | ⟨name, rfl⟩ := hm
    · exact absurd hstub.code hcode
    · rw [Method.rename, Body.rename, hstub.code] at hcode
      exact absurd rfl hcode
  · exact ⟨t, ht, d, hd, lowered, hlower, hm⟩

/-- Lowered code is never refused for its arguments. Every call in it is that of a managed call of
the method which it has been lowered from: it names the same callee, and it passes the operands that
the managed call takes, in their order and one for each parameter unless the managed call says
otherwise. -/
theorem lowered_code_wellFormed (options : Options) (time : UInt64) (program : Source.Module)
    (result : LoweredProgram) (h : lowerProgram options time program = .ok result) :
    (∀ m ∈ result.assembly.methods, ∀ j ∈ m.body.instructions, j.hasValidArity = true) ∧
      (∀ mnemonic expected got,
        Container.encode result.assembly ≠ .error (.wrongArity mnemonic expected got)) ∧
      ∀ m ∈ result.assembly.methods, m.body.instructions ≠ [] →
        ∃ t ∈ program.types, ∃ d ∈ t.methods, LoweredFrom (options.setting program t) d m ∧
          ∀ k j, m.body.instructions[k]? = some j → j.opcode.isCall = true →
            IsCallFrom (options.setting program t) d m.body.instructions k j := by
  have harity := lowerProgram_hasValidArity h
  refine ⟨harity, fun mnemonic expected got herror => ?_, fun m hm hcode => ?_⟩
  · obtain ⟨what, n, hfault⟩ := Container.encode_error harity herror
    cases hfault
  · obtain ⟨t, ht, d, hd, hlowered⟩ := lowerProgram_loweredFrom h hm hcode
    exact ⟨t, ht, d, hd, hlowered, fun k j => hlowered.isCallFrom⟩

/-- A getter that calls. The first argument is a literal of another type than the parameter. -/
def alarm : Source.Module :=
  { name := "Alarms"
    types := [
      { name := "Alarm"
        properties := [{ name := "Level", type := .int32, setter := none }]
        methods := [
          { name := "get_Level"
            returns := .int32
            body := [
              { offset := 0, code := .ldarg, operand := .index 0 },
              { offset := 1, code := .ldcI4, operand := .int 2 },
              { offset := 2, code := .ldstr, operand := .string "late" },
              { offset := 3, code := .callvirt
                operand := .method
                  { owner := { name := "Alarm" }, name := "Ring", returns := .int32, hasThis := true
                    parameters := [⟨"delay", .single⟩, ⟨"note", .string⟩] } },
              { offset := 8, code := .ret }] }] }] }

theorem lowered_code_wellFormed_alarm :
    ∃ result, lowerProgram { policy := .strict } 5 alarm = .ok result ∧
      (∃ m ∈ result.assembly.methods, ∃ j ∈ m.body.instructions,
        j.opcode = .callMethod ∧ j.variadic.map Value.kind = [.float, .string]) ∧
      (∀ m ∈ result.assembly.methods, ∀ j ∈ m.body.instructions, j.hasValidArity = true) ∧
      (∀ mnemonic expected got,
        Container.encode result.assembly ≠ .error (.wrongArity mnemonic expected got)) ∧
      ∀ m ∈ result.assembly.methods, m.body.instructions ≠ [] →
        ∃ t ∈ alarm.types, ∃ d ∈ t.methods,
          LoweredFrom (Options.setting { policy := .strict } alarm t) d m ∧
          ∀ k j, m.body.instructions[k]? = some j → j.opcode.isCall = true →
            IsCallFrom (Options.setting { policy := .strict } alarm t) d m.body.instructions k
              j := by
  have hcalls : (lowerProgram { policy := .strict } 5 alarm).toOption.map (fun result =>
      decide (∃ m ∈ result.assembly.methods, ∃ j ∈ m.body.instructions,
        j.opcode = .callMethod ∧ j.variadic.map Value.kind = [.float, .string])) = some true := by
    decide +kernel
  cases hlower : lowerProgram { policy := .strict } 5 alarm with
  | error fault =>
    rw [hlower] at hcalls
    cases hcalls
  | ok result =>
    simp only [hlower, Except.toOption, Option.map_some, Option.some.injEq,
      decide_eq_true_eq] at hcalls
    exact ⟨result, rfl, hcalls, lowered_code_wellFormed _ _ _ result hlower⟩

end Lowering

end PapyrusBackend
