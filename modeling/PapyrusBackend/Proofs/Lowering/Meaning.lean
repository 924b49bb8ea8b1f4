import PapyrusBackend.Proofs.Lowering.Agreement
import PapyrusBackend.Proofs.Lowering.Execution

namespace PapyrusBackend.Lowering

open Source Semantics

variable {V : Type}

structure Translation (f : Frame) (segments : List Segment) (sims : Nat → Simulation)
    (code : List Instruction) : Prop where
  method : IntegerMethod f.method
  start : (sims 0).skipNext = false
  course : Course f 0 f.method.body segments sims
  assembled : ∃ name declared, code = (assemble name declared segments).instructions

inductive Matches (I : Interpretation V) (m : MethodDecl) (segments : List Segment)
    (sims : Nat → Simulation) : Managed.State V → Script.State V → Prop
  | level {k : Nat} {stack : List V} {slots : Managed.Slot → V} {env : String → V}
      (hk : k ≤ m.body.length) (hskip : (sims k).skipNext = false)
      (hagrees : Agrees I m (sims k).stack stack slots env) :
      Matches I m segments sims ⟨k, stack, slots⟩ ⟨startOf segments k, env⟩
  /-- the store that comes next has been made -/
  | ahead {k : Nat} {i : Instr} {slot : Managed.Slot} {v : V} {stack : List V}
      {slots : Managed.Slot → V} {env : String → V} (hi : m.body[k]? = some i)
      (hslot : storedSlot? i = some slot) (hskip : (sims k).skipNext = true)
      (hagrees : Agrees I m (sims k).stack stack (Function.update slots slot v) env) :
      Matches I m segments sims ⟨k, v :: stack, slots⟩ ⟨startOf segments k, env⟩

def Followed (I : Interpretation V) (f : Frame) (segments : List Segment) (sims : Nat → Simulation)
    (code : List Instruction) : Managed.State V → Script.State V → Prop :=
  Follows (Managed.step I f.method) (Script.step I code) (Matches I f.method segments sims)
    fun s => f.method.body.length - s.pc

section

variable {I : Interpretation V} {f : Frame} {segments : List Segment} {sims : Nat → Simulation}
  {code emitted : List Instruction} {k n : Nat} {i : Instr} {line : UInt16} {stack stack' : List V}
  {slots slots' : Managed.Slot → V} {env env' : String → V}

theorem managed_step (hi : f.method.body[k]? = some i) :
    Managed.step I f.method ⟨k, stack, slots⟩ =
      Managed.execute I f.method i ⟨k, stack, slots⟩ := by
  simp only [Managed.step, hi]

theorem Translation.visited (ht : Translation f segments sims code)
    (hi : f.method.body[k]? = some i) : ∃ line emitted,
      segments[k]? = some { offset := i.offset, line, code := emitted } ∧
        Visited { f with position := k } i (sims k) emitted (sims (k + 1)) := by
  simpa only [Nat.zero_add] using ht.course.visited k i hi

/-- The script machine at an instruction that was emitted. -/
theorem Translation.step (ht : Translation f segments sims code)
    (hsegment : segments[k]? = some { offset := i.offset, line, code := emitted })
    {instr : Instruction} (hinstr : emitted[n]? = some instr) :
    ∃ owner, ∀ env, Script.step I code ⟨startOf segments k + n, env⟩ =
      Script.execute I (placed owner (landingOf segments) (startOf segments k + n) instr)
        ⟨startOf segments k + n, env⟩ := by
  obtain ⟨name, declared, rfl⟩ := ht.assembled
  refine ⟨name, fun env => ?_⟩
  simp only [Script.step, assemble_fetch name declared segments hsegment hinstr]

theorem Translation.step_plain (ht : Translation f segments sims code)
    (hsegment : segments[k]? = some { offset := i.offset, line, code := emitted })
    {instr : Instruction} (hinstr : emitted[n]? = some instr) (hplain : instr.target = none) :
    Script.step I code ⟨startOf segments k + n, env⟩ =
      Script.execute I instr ⟨startOf segments k + n, env⟩ := by
  obtain ⟨owner, hstep⟩ := ht.step hsegment hinstr
  rw [hstep env, execute_placed hplain]

theorem startOf_next
    (hsegment : segments[k]? = some { offset := i.offset, line, code := emitted }) :
    startOf segments (k + 1) = startOf segments k + emitted.length :=
  startOf_succ hsegment

/-- Both machines go on to the next instruction. -/
theorem followed_on (hi : f.method.body[k]? = some i)
    (hstep : Managed.execute I f.method i ⟨k, stack, slots⟩ = .next ⟨k + 1, stack', slots'⟩)
    (hsteps : Steps (Script.step I code) n ⟨startOf segments k, env⟩
      ⟨startOf segments (k + 1), env'⟩)
    (hmatches : Matches I f.method segments sims ⟨k + 1, stack', slots'⟩
      ⟨startOf segments (k + 1), env'⟩) :
    Followed I f segments sims code ⟨k, stack, slots⟩ ⟨startOf segments k, env⟩ := by
  refine .next ((managed_step hi).trans hstep) hsteps hmatches fun _ => ?_
  have hk := (List.getElem?_eq_some_iff.1 hi).1
  show f.method.body.length - (k + 1) < f.method.body.length - k
  omega

/-- An instruction that emits nothing. -/
theorem followed_silently (hi : f.method.body[k]? = some i)
    (hsegment : segments[k]? = some { offset := i.offset, line, code := [] })
    (hstep : Managed.execute I f.method i ⟨k, stack, slots⟩ = .next ⟨k + 1, stack', slots'⟩)
    {s' : Simulation} (hs' : sims (k + 1) = s') (hskip : s'.skipNext = false)
    (hagrees : Agrees I f.method s'.stack stack' slots' env) :
    Followed I f segments sims code ⟨k, stack, slots⟩ ⟨startOf segments k, env⟩ := by
  have hsteps : Steps (Script.step I code) 0 ⟨startOf segments k, env⟩
      ⟨startOf segments (k + 1), env⟩ := by
    rw [startOf_next hsegment]
    exact .refl _
  subst hs'
  exact followed_on hi hstep hsteps (.level (List.getElem?_eq_some_iff.1 hi).1 hskip hagrees)

/-- An instruction that emits a write. -/
theorem Translation.followed_by_write (ht : Translation f segments sims code)
    (hi : f.method.body[k]? = some i) {instr : Instruction}
    (hsegment : segments[k]? = some { offset := i.offset, line, code := [instr] })
    (hplain : instr.target = none)
    (hstep : Managed.execute I f.method i ⟨k, stack, slots⟩ = .next ⟨k + 1, stack', slots'⟩)
    (hwrite : ∀ p, Script.execute I instr ⟨p, env⟩ = .next ⟨p + 1, env'⟩)
    (hmatches : Matches I f.method segments sims ⟨k + 1, stack', slots'⟩
      ⟨startOf segments (k + 1), env'⟩) :
    Followed I f segments sims code ⟨k, stack, slots⟩ ⟨startOf segments k, env⟩ := by
  refine followed_on hi hstep (.one ?_) hmatches
  rw [startOf_next hsegment]
  exact (ht.step_plain hsegment (n := 0) rfl hplain).trans (hwrite _)

/-- Items do not refer to a temporary before it is made. -/
theorem IntegerState.fresh_not_read {s : Simulation} (hs : IntegerState f.method s)
    (hm : IntegerMethod f.method) (type : String) :
    ∀ item ∈ s.stack, (s.fresh type).name ∉ item.reads :=
  fun item hitem hread => not_knownName hm s.temporaries (hs.known item hitem _ hread)

/-- Behind an instruction that has written its result. -/
theorem Translation.matches_placed (ht : Translation f segments sims code)
    (hi : f.method.body[k]? = some i) {s : Simulation} (hs : IntegerState f.method s)
    (hskip : s.skipNext = false) {v : Variable}
    (hplaced : Placed { f with position := k } s v (sims (k + 1)))
    (hagrees : Agrees I f.method s.stack stack slots env) (result : V) :
    Matches I f.method segments sims ⟨k + 1, result :: stack, slots⟩
      ⟨startOf segments (k + 1), Function.update env v.name result⟩ := by
  generalize hs' : sims (k + 1) = s' at hplaced
  cases hplaced with
  | pushed =>
    refine .level (List.getElem?_eq_some_iff.1 hi).1 (hs' ▸ hskip) ?_
    have hrest := hagrees.writeOther hs.items (temporaryName_not_mem ht.method s.temporaries)
      (hs.fresh_not_read ht.method "Int") result
    rw [hs']
    exact hrest.push (congrArg some (Function.update_self ..))
  | absorbed hnext htarget hslot hv =>
    have hnext : f.method.body[k + 1]? = some _ := hnext
    obtain ⟨_, _, _, hvisited⟩ := ht.visited hnext
    have hkept : (sims (k + 2)).stack = s.stack := by
      rw [(hvisited.of_skipNext (hs' ▸ rfl)).2, hs']
    have hfree := (ht.course.tidy (k + 1) _ hnext).store _ hslot _ hv
    rw [hkept] at hfree
    refine .ahead hnext hslot (hs' ▸ rfl) ?_
    rw [hs']
    exact hagrees.writeSlot ht.method hs.items hv hfree result

/-- Both machines arrive at the target of a branch with nothing on the stack. -/
theorem Translation.jump (ht : Translation f segments sims code) (hi : f.method.body[k]? = some i)
    {offset : UInt32} (htarget : i.target? = some offset) :
    ∃ t, (∀ s stack, Managed.State.jump (V := V) s f.method.body offset stack =
        .next { s with pc := t, stack }) ∧
      landingOf segments offset = startOf segments t ∧
      ∀ slots env, Agrees I f.method [] [] slots env →
        Matches I f.method segments sims ⟨t, [], slots⟩ ⟨startOf segments t, env⟩ := by
  have hmem := List.mem_of_getElem? hi
  obtain ⟨j, hj, hoffset⟩ := ht.method.targets i hmem offset htarget
  obtain ⟨t, ht'⟩ : ∃ t, f.method.body.findIdx? (fun i => i.offset == offset) = some t :=
    Option.isSome_iff_exists.1 (List.findIdx?_isSome.trans
      (List.any_eq_true.2 ⟨j, hj, beq_iff_eq.2 hoffset⟩))
  obtain ⟨hlt, hfound, _⟩ := List.findIdx?_eq_some_iff_getElem.1 ht'
  have hdest : f.method.body[t]? = some f.method.body[t] := List.getElem?_eq_getElem hlt
  have hbranch : f.isBranchTarget f.method.body[t].offset = true :=
    List.any_eq_true.2 ⟨i, hmem, by rw [htarget, beq_iff_eq.1 hfound]; exact beq_self_eq_true _⟩
  have hempty := (ht.course.tidy t _ hdest).target hbranch
  obtain ⟨line, emitted, hsegment, _⟩ := ht.visited hdest
  have hascending : segments.Pairwise fun a b => a.offset < b.offset := by
    rw [← List.pairwise_map (f := Segment.offset), ht.course.offsets, List.pairwise_map]
    exact ht.method.ascending
  refine ⟨t, fun s stack => ?_, ?_, fun slots env hagrees => ?_⟩
  · simp only [Managed.State.jump, ht']
  · rw [← beq_iff_eq.1 hfound]
    exact landingOf_offset hascending hsegment rfl
  · exact .level (Nat.le_of_lt hlt) (ht.course.not_skipped ht.start hdest hbranch)
      (hempty ▸ hagrees)

/-- A conditional jump that follows the instructions `front`. -/
theorem Translation.followed_by_branch (ht : Translation f segments sims code)
    (hi : f.method.body[k]? = some i) {offset : UInt32} (htarget : i.target? = some offset)
    (front : List Instruction) {expected : Bool} {condition : Value}
    (hsegment : segments[k]? = some
      { offset := i.offset, line
        code := front ++ [.jumpIf expected condition (some (.source offset))] })
    {x : V} (hstep : Managed.execute I f.method i ⟨k, stack, slots⟩ =
      Managed.State.branch ⟨k, stack, slots⟩ f.method.body offset [] (I.truth x == expected))
    (hsteps : Steps (Script.step I code) front.length ⟨startOf segments k, env⟩
      ⟨startOf segments k + front.length, env'⟩)
    (hcondition : Script.eval I env' condition = some x)
    {s' : Simulation} (hs' : sims (k + 1) = s') (hskip : s'.skipNext = false)
    (hempty : s'.stack = []) (hagrees : Agrees I f.method [] [] slots env') :
    Followed I f segments sims code ⟨k, stack, slots⟩ ⟨startOf segments k, env⟩ := by
  obtain ⟨t, hjump, hland, hmatches⟩ := ht.jump (I := I) hi htarget
  obtain ⟨owner, hscript⟩ := ht.step (I := I) hsegment List.getElem?_concat_length
  have hlast := (hscript env').trans (execute_jumpIf expected offset hcondition)
  cases htaken : I.truth x == expected with
  | true =>
    rw [htaken, if_pos rfl, hland] at hlast
    rw [htaken] at hstep
    refine .next ((managed_step hi).trans (hstep.trans (hjump _ _))) (hsteps.trans (.one hlast))
      (hmatches _ _ hagrees) fun hnone => absurd hnone (Nat.succ_ne_zero _)
  | false =>
    rw [htaken, if_neg Bool.false_ne_true] at hlast
    rw [htaken] at hstep
    have hnext := startOf_next hsegment
    rw [List.length_append] at hnext
    refine followed_on hi hstep (hnext ▸ hsteps.trans (.one hlast)) ?_
    subst hs'
    exact .level (List.getElem?_eq_some_iff.1 hi).1 hskip (hempty ▸ hagrees)

theorem managed_store {slot : Managed.Slot} (h : storedSlot? i = some slot) (x : V) :
    Managed.execute I f.method i ⟨k, x :: stack, slots⟩ =
      .next ⟨k + 1, stack, Function.update slots slot x⟩ := by
  obtain ⟨offset, c, operand, pop, line⟩ := i
  cases c <;> cases operand <;> cases h <;> rfl

theorem managed_operator {op : Operator} (h : Operator.ofCode? i.code = some op) (x y : V) :
    Managed.execute I f.method i ⟨k, y :: x :: stack, slots⟩ =
      .next ⟨k + 1, I.operate op x y :: stack, slots⟩ := by
  obtain ⟨offset, c, operand, pop, line⟩ := i
  cases c <;> cases h <;> rfl

theorem managed_compare {offset : UInt32} {comparison : Comparison} {expected : Bool}
    (h : Comparison.ofBranch? i.code = some (comparison, expected))
    (htarget : i.target? = some offset) (x y : V) :
    Managed.execute I f.method i ⟨k, y :: x :: stack, slots⟩ =
      Managed.State.branch ⟨k, y :: x :: stack, slots⟩ f.method.body offset stack
        (I.truth (I.compare comparison x y) == expected) := by
  obtain ⟨_, c, operand, pop, line⟩ := i
  cases c <;> cases h <;> cases operand <;> cases htarget <;> rfl

/-- A store that was not made early. -/
theorem Translation.followed_store (ht : Translation f segments sims code)
    (hi : f.method.body[k]? = some i) {slot : Managed.Slot} (hslot : storedSlot? i = some slot)
    {v : Variable} (hv : slotVariable? f.method slot = some v) {item : Item} {rest : Stack}
    (hsegment : segments[k]? = some
      { offset := i.offset, line, code := [.assign v.name item.operand] })
    (hs' : sims (k + 1) = { sims k with stack := rest }) (hskip : (sims k).skipNext = false)
    (hagrees : Agrees I f.method (item :: rest) stack slots env) :
    Followed I f segments sims code ⟨k, stack, slots⟩ ⟨startOf segments k, env⟩ := by
  obtain ⟨x, values, rfl, hx, hrest⟩ := hagrees.top
  have hfree := (ht.course.tidy k i hi).store slot hslot v hv
  have hitems := (ht.course.state (k + 1)).items
  rw [hs'] at hfree hitems
  refine ht.followed_by_write hi hsegment rfl (managed_store hslot x)
    (fun _ => execute_assign v.name hx) ?_
  refine .level (List.getElem?_eq_some_iff.1 hi).1 (hs' ▸ hskip) ?_
  rw [hs']
  exact hrest.writeSlot ht.method hitems hv hfree x

/-- A branch that is always taken. -/
theorem Translation.followed_jump (ht : Translation f segments sims code)
    (hi : f.method.body[k]? = some i) (hbr : i.code = .br) {offset : UInt32}
    (htarget : i.target? = some offset)
    (hsegment : segments[k]? = some
      { offset := i.offset, line, code := [.jump (some (.source offset))] })
    (hagrees : Agrees I f.method [] stack slots env) :
    Followed I f segments sims code ⟨k, stack, slots⟩ ⟨startOf segments k, env⟩ := by
  cases hagrees.empty
  obtain ⟨t, hjump, hland, hmatches⟩ := ht.jump (I := I) hi htarget
  have hstep : Managed.execute I f.method i ⟨k, [], slots⟩ = .next ⟨t, [], slots⟩ := by
    simp only [Managed.execute, hbr, htarget]
    exact hjump _ _
  obtain ⟨owner, hscript⟩ := ht.step (I := I) hsegment (n := 0) rfl
  have hlast := (hscript env).trans (execute_jump offset)
  rw [hland] at hlast
  exact .next ((managed_step hi).trans hstep) (.one hlast) (hmatches _ _ hagrees)
    fun hnone => absurd hnone Nat.one_ne_zero

/-- A branch on the truth of an item. -/
theorem Translation.followed_truth (ht : Translation f segments sims code)
    (hi : f.method.body[k]? = some i) {offset : UInt32} (htarget : i.target? = some offset)
    {expected : Bool}
    (hcode : i.code = .brtrue ∧ expected = true ∨ i.code = .brfalse ∧ expected = false)
    {item : Item}
    (hsegment : segments[k]? = some
      { offset := i.offset, line
        code := [.jumpIf expected item.operand (some (.source offset))] })
    (hs' : sims (k + 1) = { sims k with stack := [] }) (hskip : (sims k).skipNext = false)
    (hagrees : Agrees I f.method [item] stack slots env) :
    Followed I f segments sims code ⟨k, stack, slots⟩ ⟨startOf segments k, env⟩ := by
  obtain ⟨x, values, rfl, hx, hempty⟩ := hagrees.top
  cases hempty.empty
  have hstep : Managed.execute I f.method i ⟨k, [x], slots⟩ =
      Managed.State.branch ⟨k, [x], slots⟩ f.method.body offset [] (I.truth x == expected) := by
    obtain ⟨hcode, rfl⟩ | ⟨hcode, rfl⟩ := hcode
    · rw [beq_true]
      simp only [Managed.execute, hcode, htarget]
    · rw [beq_false]
      simp only [Managed.execute, hcode, htarget]
  exact ht.followed_by_branch hi htarget [] hsegment hstep (.refl _) hx hs' hskip rfl hempty

/-- A comparison is made in a temporary, which decides the jump. -/
theorem Translation.followed_compare (ht : Translation f segments sims code)
    (hi : f.method.body[k]? = some i) {offset : UInt32} (htarget : i.target? = some offset)
    {comparison : Comparison} {expected : Bool}
    (hc : Comparison.ofBranch? i.code = some (comparison, expected)) {a b : Item}
    (hsegment : segments[k]? = some
      { offset := i.offset, line
        code := [{ opcode := comparisonOpcode comparison
                   arguments := [((sims k).fresh "Bool").value, a.operand, b.operand] },
          .jumpIf expected ((sims k).fresh "Bool").value (some (.source offset))] })
    (hs' : sims (k + 1) = { (sims k).withFresh "Bool" with stack := [] })
    (hskip : (sims k).skipNext = false)
    (hagrees : Agrees I f.method [b, a] stack slots env) :
    Followed I f segments sims code ⟨k, stack, slots⟩ ⟨startOf segments k, env⟩ := by
  obtain ⟨y, values, rfl, hy, hrest⟩ := hagrees.top
  obtain ⟨x, values, rfl, hx, hempty⟩ := hrest.top
  cases hempty.empty
  have hwrite : Script.step I code ⟨startOf segments k, env⟩ = .next ⟨_, _⟩ :=
    (ht.step_plain hsegment (n := 0) rfl rfl).trans
      (execute_compare comparison ((sims k).fresh "Bool") hx hy)
  refine ht.followed_by_branch hi htarget [_] hsegment (managed_compare hc htarget x y)
    (.one hwrite) (congrArg some (Function.update_self ..)) hs' hskip rfl ?_
  refine hempty.writeOther ?_ (temporaryName_not_mem ht.method _) ?_ _ <;>
    exact fun _ hnone => absurd hnone List.not_mem_nil

/-- The script follows every instruction that is lowered. -/
theorem Translation.followed_lowered (ht : Translation f segments sims code)
    (hi : f.method.body[k]? = some i)
    (hsegment : segments[k]? = some { offset := i.offset, line, code := emitted })
    (hskip : (sims k).skipNext = false)
    (hcode : Lowered { f with position := k } (sims k) i.code i.operand emitted (sims (k + 1)))
    (hagrees : Agrees I f.method (sims k).stack stack slots env) :
    Followed I f segments sims code ⟨k, stack, slots⟩ ⟨startOf segments k, env⟩ := by
  have hstate := ht.course.state k
  obtain ⟨offset, c, operand, pop, line'⟩ := i
  generalize hs' : sims (k + 1) = s' at hcode
  cases hcode with
  | nop => exact followed_silently hi hsegment rfl hs' hskip hagrees
  | @load _ index slot v hslot hv =>
    have hstep : Managed.execute I f.method ⟨offset, c, .index index, pop, line'⟩
        ⟨k, stack, slots⟩ = .next ⟨k + 1, slots slot :: stack, slots⟩ := by
      obtain ⟨rfl, rfl⟩ | ⟨rfl, rfl⟩ := hslot <;> rfl
    exact followed_silently hi hsegment hstep hs' hskip
      (hagrees.push (congrArg some (hagrees.slots slot v hv)))
  | literal n => exact followed_silently hi hsegment rfl hs' hskip (hagrees.push rfl)
  | @store _ index slot _ _ _ hstack hslot hv =>
    have hstored : storedSlot? ⟨offset, c, .index index, pop, line'⟩ = some slot := by
      obtain ⟨rfl, rfl⟩ | ⟨rfl, rfl⟩ := hslot <;> rfl
    exact ht.followed_store hi hstored hv hsegment hs' hskip (hstack ▸ hagrees)
  | @operator _ op a b rest v _ hstack hop hplaced =>
    rw [hstack] at hagrees
    obtain ⟨y, _, rfl, hy, hrest⟩ := hagrees.top
    obtain ⟨x, values, rfl, hx, hrest⟩ := hrest.top
    have hdrop : IntegerState f.method { sims k with stack := rest } :=
      hstate.drop fun item hitem =>
        hstack ▸ List.mem_cons_of_mem b (List.mem_cons_of_mem a hitem)
    exact ht.followed_by_write hi hsegment rfl (managed_operator hop x y)
      (fun _ => execute_operator op v hx hy)
      (ht.matches_placed hi hdrop hskip (hs' ▸ hplaced) hrest _)
  | @neg a rest v _ hstack hplaced =>
    rw [hstack] at hagrees
    obtain ⟨x, values, rfl, hx, hrest⟩ := hagrees.top
    have hdrop : IntegerState f.method { sims k with stack := rest } :=
      hstate.drop fun item hitem => hstack ▸ List.mem_cons_of_mem a hitem
    exact ht.followed_by_write hi hsegment rfl rfl (fun _ => execute_neg v hx)
      (ht.matches_placed hi hdrop hskip (hs' ▸ hplaced) hrest _)
  | @dup item rest hstack =>
    have hcopy : Agrees I f.method (item :: rest) stack slots env := hstack ▸ hagrees
    obtain ⟨x, values, rfl, hx, _⟩ := hcopy.top
    exact followed_silently hi hsegment rfl hs' hskip (hagrees.push hx)
  | pop hstack =>
    rw [hstack] at hagrees
    obtain ⟨x, values, rfl, _, hrest⟩ := hagrees.top
    exact followed_silently hi hsegment rfl hs' hskip hrest
  | retNone hvoid =>
    refine .halt (o := .returned none) ?_ (.now (ht.step_plain hsegment (n := 0) rfl rfl))
    rw [managed_step hi]
    exact if_pos hvoid
  | @ret item rest hvoid hstack =>
    rw [hstack] at hagrees
    obtain ⟨x, values, rfl, hx, _⟩ := hagrees.top
    refine .halt (o := .returned (some x)) ?_
      (.now ((ht.step_plain hsegment (n := 0) rfl rfl).trans (execute_ret hx)))
    rw [managed_step hi]
    exact if_neg (hvoid ▸ Bool.false_ne_true)
  | br hstack target => exact ht.followed_jump hi rfl rfl hsegment (hstack ▸ hagrees)
  | truth hstack hcode target =>
    exact ht.followed_truth hi rfl hcode hsegment hs' hskip (hstack ▸ hagrees)
  | compare hstack hc target =>
    exact ht.followed_compare hi rfl hc hsegment hs' hskip (hstack ▸ hagrees)

theorem Translation.simulates (ht : Translation f segments sims code) (I : Interpretation V) :
    Simulates (Managed.step I f.method) (Script.step I code) (Matches I f.method segments sims)
      fun s => f.method.body.length - s.pc := by
  rintro _ _ hmatches
  cases hmatches with
  | @level k stack slots env hk hskip hagrees =>
    cases hi : f.method.body[k]? with
    | none =>
      have hlast : k = segments.length := by
        rw [ht.course.length]
        exact Nat.le_antisymm hk (List.getElem?_eq_none_iff.1 hi)
      obtain ⟨name, declared, rfl⟩ := ht.assembled
      refine .halt (o := .ended) ?_ (.now ?_)
      · simp only [Managed.step, hi]
      · simp only [Script.step, hlast, assemble_end]
    | some i =>
      obtain ⟨line, emitted, hsegment, hvisited⟩ := ht.visited hi
      exact ht.followed_lowered hi hsegment hskip (hvisited.of_not_skipNext hskip) hagrees
  | @ahead k i slot v stack slots env hi hslot hskip hagrees =>
    obtain ⟨line, emitted, hsegment, hvisited⟩ := ht.visited hi
    obtain ⟨rfl, hs'⟩ := hvisited.of_skipNext hskip
    exact followed_silently hi hsegment (managed_store hslot v) hs' rfl hagrees

end

/-- A tidily lowered integer method and its script halt with the same outcomes, whatever the values and
the operations on them are, if they begin with the same values in their variables. -/
theorem halts_lowerMethod_iff {setting : Setting} {m : MethodDecl} {result : LoweredMethod}
    (hm : IntegerMethod m) (hpolicy : setting.policy = .strict)
    (hcoerce : setting.coerce = Value.coerce) (htidy : TidyMethod setting m)
    (h : lowerMethod setting m = .ok result) (I : Interpretation V) (slots : Managed.Slot → V)
    (env : String → V) (hstart : ∀ slot v, slotVariable? m slot = some v → env v.name = slots slot)
    (outcome : Outcome V) :
    Halts (Managed.step I m) { slots } outcome ↔
      Halts (Script.step I result.method.body.instructions) { env } outcome := by
  rw [lowerMethod, hm.hasCode, if_neg Bool.false_ne_true, lowerCode] at h
  rw [TidyMethod, hpolicy] at htidy
  rw [hpolicy] at h
  cases hvisit : Lower.visitAll (setting.frame m) .strict 0 0 m.body
      (.start m setting.owner.delegateBindings) with
  | error fault s' => simp only [hvisit, reduceCtorEq] at h
  | ok segments s' =>
    simp only [hvisit] at h
    cases h
    obtain ⟨sims, hsims, hcourse⟩ := exists_course (f := setting.frame m) hm hcoerce m.body 0 0
      (fun _ hi => hi) (integerState_start m _) htidy hvisit
    have htranslation : Translation (setting.frame m) segments sims
        (assemble m.name s'.variables segments).instructions :=
      ⟨hm, hsims ▸ rfl, hcourse, m.name, s'.variables, rfl⟩
    refine (htranslation.simulates I).halts_iff ?_ outcome
    refine .level (Nat.zero_le _) (hsims ▸ rfl) ?_
    rw [hsims]
    exact ⟨rfl, hstart⟩

/-- Adds the numbers from `n` down to one. Both stores of the loop follow the operators whose results
they take. -/
def triangle : MethodDecl :=
  { name := "Triangle"
    parameters := [{ name := "n", type := .int32 }]
    returns := .int32
    isStatic := true
    locals := [{ name := some "total", type := .int32 }]
    body := [
      { offset := 0, code := .ldcI4, operand := .int 0 },
      { offset := 1, code := .stloc, operand := .index 0 },
      { offset := 2, code := .br, operand := .target 17 },
      { offset := 7, code := .ldloc, operand := .index 0 },
      { offset := 8, code := .ldarg, operand := .index 0 },
      { offset := 9, code := .add },
      { offset := 10, code := .stloc, operand := .index 0 },
      { offset := 11, code := .ldarg, operand := .index 0 },
      { offset := 12, code := .ldcI4, operand := .int 1 },
      { offset := 13, code := .sub },
      { offset := 14, code := .starg, operand := .index 0 },
      { offset := 17, code := .ldarg, operand := .index 0 },
      { offset := 18, code := .ldcI4, operand := .int 0 },
      { offset := 19, code := .bgt, operand := .target 7 },
      { offset := 24, code := .ldloc, operand := .index 0 },
      { offset := 25, code := .ret }] }

theorem triangle_integerMethod : IntegerMethod triangle where
  isStatic := rfl
  hasCode := rfl
  parameters := by decide
  locals := by decide
  returns := .inl rfl
  distinct := by decide
  notTemporary := by decide
  code := by
    simp only [triangle, List.forall_mem_cons, and_true]
    exact ⟨.ldcI4 0, .stloc 0, .br 17, .ldloc 0, .ldarg 0, .operator rfl, .stloc 0, .ldarg 0,
      .ldcI4 1, .operator rfl, .starg 0, .ldarg 0, .ldcI4 0, .compare rfl 7, .ldloc 0, .ret,
      fun _ hnone => absurd hnone List.not_mem_nil⟩
  ascending := by decide
  targets := by simp [triangle, Instr.target?]

def wordArithmetic : Interpretation Int32 where
  int := id
  operate
    | .add => (· + ·) | .sub => (· - ·) | .mul => (· * ·) | .div => (· / ·) | .rem => (· % ·)
  neg := Neg.neg
  compare c a b :=
    let holds := match c with
      | .eq => a == b | .lt => a < b | .le => a ≤ b | .gt => b < a | .ge => b ≤ a
    if holds then 1 else 0
  truth v := v != 0

def strictSetting : Setting :=
  { program := default, owner := default, target := default, generation := default
    policy := .strict }

theorem halts_lowered_triangle :
    ∃ result, lowerMethod strictSetting triangle = .ok result ∧
      Halts (Script.step wordArithmetic result.method.body.instructions) { env := fun _ => 3 }
        (.returned (some 6)) := by
  cases h : lowerMethod strictSetting triangle with
  | error fault =>
    have hok : (lowerMethod strictSetting triangle).isOk = true := by decide +kernel
    rw [h] at hok
    cases hok
  | ok result =>
    refine ⟨result, rfl, ?_⟩
    have htidy : TidyMethod strictSetting triangle := by decide +kernel
    refine (halts_lowerMethod_iff triangle_integerMethod rfl rfl htidy h wordArithmetic
      (fun _ => 3) (fun _ => 3) (fun _ _ _ => rfl) _).1 ?_
    exact halts_of_run 100 (by decide +kernel)

end PapyrusBackend.Lowering
