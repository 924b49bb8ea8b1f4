import Mathlib.Algebra.Group.Nat.Defs
import PapyrusBackend.Proofs.Body.Numbering
import PapyrusBackend.Proofs.Lowering.Placement
import PapyrusBackend.Proofs.Lowering.Visits

namespace PapyrusBackend

namespace Lowering

open Source

section

variable (setting : Setting) (m : MethodDecl) (q : Nat)

def emitted? : Option (List Instruction) :=
  match Lower.visitAll (setting.frame m) setting.policy 0 0 (m.body.take q)
      (.start m setting.owner.delegateBindings) with
  | .ok segments _ => some (segments.flatMap Segment.instructions)
  | .error .. => none

/-- What has been emitted when the instruction at place `q` is lowered: stack items have been carried
over to it by then. -/
def reached? : Option (List Instruction) :=
  match Lower.visitAll (setting.frame m) setting.policy 0 0 (m.body.take q)
      (.start m setting.owner.delegateBindings) with
  | .ok segments s =>
    let before := segments.flatMap Segment.instructions
    match m.body[q]? with
    | none => some before
    | some i =>
      match Lower.arrive { setting.frame m with position := q } i s with
      | .ok entry _ => some (before ++ entry)
      | .error .. => none
  | .error .. => none

def Covers (p k : Nat) : Prop :=
  ∃ front back, reached? setting m p = some front ∧ emitted? setting m (p + 1) = some back ∧
    front.length ≤ k ∧ k < back.length

/-- A jump at position `k` leads to position `t`, where the code of the first instruction at or behind
the offset of its branch begins. -/
structure LandsAt (code : List Instruction) (k : Nat) (j : Instruction) (t : Nat) : Prop where
  target : j.target = some (.position t)
  le_length : t ≤ code.length
  delta : code.length < 2 ^ 31 → j.delta?.map Int32.toInt = some (t - k : Int)
  branch : ∃ p branch offset onto, m.body[p]? = some branch ∧ branch.code.category = .branch ∧
    branch.target? = some offset ∧ Covers setting m p k ∧
    reached? setting m (m.body.findIdx fun i => offset ≤ i.offset) = some onto ∧
    t = onto.length ∧ (code.take t).map Instruction.opcode = onto.map Instruction.opcode

end

def frontOf (segments : List Segment) (q : Nat) : List Instruction :=
  (segments.take q).flatMap Segment.instructions ++ segments[q]?.elim [] Segment.entry

theorem length_frontOf {segments : List Segment} {q : Nat} {segment : Segment}
    (h : segments[q]? = some segment) :
    (frontOf segments q).length = startOf segments q + segment.entry.length := by
  rw [frontOf, h, List.length_append]
  rfl

theorem frontOf_end {segments : List Segment} {q : Nat} (h : segments[q]? = none) :
    frontOf segments q = segments.flatMap Segment.instructions := by
  rw [frontOf, h, List.take_of_length_le (List.getElem?_eq_none_iff.1 h)]
  exact List.append_nil _

theorem frontOf_isPrefix (segments : List Segment) (q : Nat) :
    frontOf segments q <+: segments.flatMap Segment.instructions := by
  cases hq : segments[q]? with
  | none =>
    exact ⟨[], by rw [List.append_nil, frontOf_end hq]⟩
  | some segment =>
    obtain ⟨hlt, hsegment⟩ := List.getElem?_eq_some_iff.1 hq
    have hparts : segments = segments.take q ++ segment :: segments.drop (q + 1) := by
      rw [← hsegment, ← List.drop_eq_getElem_cons hlt, List.take_append_drop]
    have hall : segments.flatMap Segment.instructions =
        frontOf segments q ++
          (segment.code ++ (segments.drop (q + 1)).flatMap Segment.instructions) := by
      conv_lhs => rw [hparts]
      rw [List.flatMap_append, List.flatMap_cons, frontOf, hq, Option.elim_some,
        Segment.instructions, List.append_assoc, List.append_assoc]
    rw [hall]
    exact List.prefix_append _ _

theorem landingOf_eq (segments : List Segment) (offset : UInt32) :
    landingOf segments offset =
      (frontOf segments (segments.findIdx fun segment => offset ≤ segment.offset)).length := by
  simp only [landingOf, landing_boundaries_findIdx]
  cases hq : segments[segments.findIdx fun segment => offset ≤ segment.offset]? with
  | none => rw [frontOf_end hq, Option.elim_none]
  | some segment => rw [length_frontOf hq, Option.elim_some, Nat.zero_add]

/-- Only behind what carries stack items over there are jumps. -/
theorem Segment.Serves.jump {i : Instr} {segment : Segment} (h : segment.Serves i) {n : Nat}
    {j : Instruction} (hj : segment.instructions[n]? = some j) (hjump : j.opcode.isJump = true) :
    segment.entry.length ≤ n ∧ i.code.category = .branch ∧
      ∃ offset, i.target? = some offset ∧ j.target = some (.source offset) := by
  have hplain : ¬j.IsPlain := by
    intro hplain
    rw [Opcode.isJump, hplain.opcode] at hjump
    cases hjump
  by_cases hn : n < segment.entry.length
  · rw [Segment.instructions, List.getElem?_append_left hn] at hj
    exact absurd (h.entry j (List.mem_of_getElem? hj)) hplain
  · rw [Segment.instructions, List.getElem?_append_right (Nat.not_lt.1 hn)] at hj
    refine ⟨Nat.not_lt.1 hn, ?_⟩
    cases h.code j (List.mem_of_getElem? hj) with
    | plain h => exact absurd h hplain
    | jump hcode hoffset => exact ⟨hcode, _, hoffset, rfl⟩
    | jumpIf expected condition hcode hoffset => exact ⟨hcode, _, hoffset, rfl⟩

theorem findIdx_offset {instrs : List Instr} {segments : List Segment}
    (h : List.Forall₂ Segment.Serves instrs segments) (offset : UInt32) :
    (instrs.findIdx fun i => offset ≤ i.offset) =
      segments.findIdx fun segment => offset ≤ segment.offset := by
  induction h with
  | nil => rfl
  | cons hfirst _ ih => rw [List.findIdx_cons, List.findIdx_cons, hfirst.offset, ih]

theorem placed_opcode (owner : String) (land : UInt32 → Nat) (k : Nat) (i : Instruction) :
    (placed owner land k i).opcode = i.opcode := Instruction.withDelta_opcode _

theorem placed_target_ne (owner : String) (land : UInt32 → Nat) (k : Nat) (i : Instruction)
    (offset : UInt32) : (placed owner land k i).target ≠ some (.source offset) := by
  rw [placed, Instruction.withDelta_target]
  dsimp only
  split
  · simp
  · next hnot => exact hnot offset

theorem placed_target (owner : String) (land : UInt32 → Nat) (k : Nat) {i : Instruction}
    {offset : UInt32} (h : i.target = some (.source offset)) :
    (placed owner land k i).target = some (.position (land offset)) := by
  rw [placed, Instruction.withDelta_target, h]

theorem delta?_placed (owner : String) (land : UInt32 → Nat) (k : Nat) {i : Instruction}
    {offset : UInt32} (hjump : i.opcode.isJump = true) (h : i.target = some (.source offset)) :
    (placed owner land k i).delta? = some (Int32.ofInt (land offset - k)) := by
  simp only [placed, h]
  exact Instruction.delta?_withDelta hjump rfl
    (i := { i with target := some (.position (land offset)), offset := k, method := owner })

section

variable {setting : Setting} {m : MethodDecl} {segments : List Segment} {t : Simulation}
  (h : Lower.visitAll (setting.frame m) setting.policy 0 0 m.body
    (.start m setting.owner.delegateBindings) = .ok segments t)

include h

theorem emitted?_eq (q : Nat) :
    emitted? setting m q = some ((segments.take q).flatMap Segment.instructions) := by
  obtain ⟨s', hrun, _⟩ := Lower.visitAll_take (Lower.awaits_start m _) h q
  rw [emitted?, show m.body = (setting.frame m).method.body from rfl, hrun]

theorem reached?_eq (q : Nat) :
    reached? setting m q = some (frontOf segments q) := by
  obtain ⟨s', hrun, hnext⟩ := Lower.visitAll_take (Lower.awaits_start m _) h q
  have hlength := (Lower.visitAll_serves (Lower.awaits_start m _) h).length_eq
  rw [reached?, show m.body = (setting.frame m).method.body from rfl, hrun]
  dsimp only
  cases hq : (setting.frame m).method.body[q]? with
  | none =>
    have hnone : segments[q]? = none := by
      rw [List.getElem?_eq_none_iff, ← hlength]
      exact List.getElem?_eq_none_iff.1 hq
    rw [frontOf, hnone]
    exact congrArg some (List.append_nil _).symm
  | some i =>
    obtain ⟨line, segment, t', hsegment, hvisit⟩ := hnext i hq
    obtain ⟨t'', harrive, _⟩ := Lower.visit_some hvisit
    rw [frontOf, hsegment]
    simp only [harrive, Option.elim_some]

/-- The code of an instruction covers what its segment holds behind the entry. -/
theorem covers_segment {p n : Nat} {segment : Segment} (hsegment : segments[p]? = some segment)
    (hentry : segment.entry.length ≤ n) (hn : n < segment.instructions.length) :
    Covers setting m p (startOf segments p + n) := by
  refine ⟨_, _, reached?_eq h p, emitted?_eq h (p + 1), ?_, ?_⟩
  · rw [length_frontOf hsegment]
    exact Nat.add_le_add_left hentry _
  · show _ < startOf segments (p + 1)
    rw [startOf_succ hsegment]
    exact Nat.add_lt_add_left hn _

end

theorem lowerMethod_ok {setting : Setting} {m : MethodDecl} {result : LoweredMethod}
    (h : lowerMethod setting m = .ok result) :
    result.method.body.instructions = [] ∨ ∃ segments t,
      Lower.visitAll (setting.frame m) setting.policy 0 0 m.body
        (.start m setting.owner.delegateBindings) = .ok segments t ∧
      result.method.body = assemble m.name t.variables segments := by
  rw [lowerMethod] at h
  split at h
  · cases h
    exact .inl rfl
  · obtain ⟨segments, t, hvisit, hresult⟩ := lowerCode_ok h
    cases hresult
    exact .inr ⟨segments, t, hvisit, rfl⟩

theorem length_assemble (name : String) (declared : List TypedName) (segments : List Segment) :
    (assemble name declared segments).instructions.length =
      (segments.flatMap Segment.instructions).length := by
  simp [assemble, Body.resolve, Body.renumber, Body.append, Body.stamp]

theorem opcodes_assemble (name : String) (declared : List TypedName) (segments : List Segment) :
    (assemble name declared segments).instructions.map Instruction.opcode =
      (segments.flatMap Segment.instructions).map Instruction.opcode := by
  apply List.ext_getElem?
  intro k
  rw [List.getElem?_map, List.getElem?_map, assemble_getElem?, Option.map_map]
  congr 1
  funext i
  exact placed_opcode _ _ _ _

/-- All code of a body is that of some managed instruction, at its position. -/
theorem exists_assembled {instrs : List Instr} {segments : List Segment}
    (h : List.Forall₂ Segment.Serves instrs segments) {name : String} {declared : List TypedName}
    {k : Nat} {i : Instruction}
    (hi : (assemble name declared segments).instructions[k]? = some i) :
    ∃ j, (segments.flatMap Segment.instructions)[k]? = some j ∧
      (∃ source ∈ instrs, Emitted source j) ∧ i = placed name (landingOf segments) k j := by
  rw [assemble_getElem?, Option.map_eq_some_iff] at hi
  obtain ⟨j, hj, rfl⟩ := hi
  exact ⟨j, hj, exists_emitted h (List.mem_of_getElem? hj), rfl⟩

theorem landsAt_assemble {setting : Setting} {m : MethodDecl} {segments : List Segment}
    {s : Simulation}
    (h : Lower.visitAll (setting.frame m) setting.policy 0 0 m.body
      (.start m setting.owner.delegateBindings) = .ok segments s)
    {k : Nat} {j : Instruction}
    (hj : (assemble m.name s.variables segments).instructions[k]? = some j)
    (hjump : j.opcode.isJump = true) :
    ∃ t, LandsAt setting m (assemble m.name s.variables segments).instructions k j t := by
  have hserves : List.Forall₂ Segment.Serves m.body segments :=
    Lower.visitAll_serves (Lower.awaits_start m _) h
  rw [assemble_getElem?, Option.map_eq_some_iff] at hj
  obtain ⟨i, hi, rfl⟩ := hj
  rw [placed_opcode] at hjump
  obtain ⟨p, segment, n, hsegment, hn, rfl⟩ := exists_segment hi
  obtain ⟨hp, hsegment'⟩ := List.getElem?_eq_some_iff.1 hsegment
  have hp' : p < m.body.length := hserves.length_eq ▸ hp
  have hserve : segment.Serves m.body[p] := hsegment' ▸ hserves.get hp' hp
  obtain ⟨hentry, hcode, offset, hoffset, htarget⟩ := hserve.jump hn hjump
  have honto := frontOf_isPrefix segments (segments.findIdx fun segment => offset ≤ segment.offset)
  have hlanding := landingOf_eq segments offset
  have hle : landingOf segments offset ≤
      (assemble m.name s.variables segments).instructions.length := by
    rw [length_assemble, hlanding]
    exact honto.length_le
  have hk : startOf segments p + n < (assemble m.name s.variables segments).instructions.length := by
    rw [length_assemble]
    exact (List.getElem?_eq_some_iff.1 hi).1
  refine ⟨landingOf segments offset, placed_target _ _ _ htarget, hle, ?_, p, m.body[p], offset, _,
    List.getElem?_eq_getElem hp', hcode, hoffset,
    covers_segment h hsegment hentry (List.getElem?_eq_some_iff.1 hn).1,
    reached?_eq h _, ?_, ?_⟩
  · intro hshort
    rw [delta?_placed _ _ _ hjump htarget, Option.map_some]
    rw [Int32.toInt_ofInt_of_le (by omega) (by omega)]
  · rw [findIdx_offset hserves, hlanding]
  · rw [List.map_take, opcodes_assemble, ← List.map_take, findIdx_offset hserves, hlanding,
      ← List.prefix_iff_eq_take.1 honto]

/-- Every jump of a lowered method leads to the code of the first instruction at or behind the offset
that its branch names. -/
theorem lowered_jump_landsAt {setting : Setting} {m : MethodDecl} {result : LoweredMethod}
    (h : lowerMethod setting m = .ok result) :
    (∀ j ∈ result.method.body.instructions, ∀ offset, j.target ≠ some (.source offset)) ∧
      ∀ k j, result.method.body.instructions[k]? = some j → j.opcode.isJump = true →
        ∃ t, LandsAt setting m result.method.body.instructions k j t := by
  obtain hempty | ⟨segments, s, hvisit, hbody⟩ := lowerMethod_ok h
  · rw [hempty]
    exact ⟨fun j hj => absurd hj List.not_mem_nil, fun k j hj => by cases hj⟩
  · rw [hbody]
    constructor
    · intro j hj offset
      obtain ⟨k, hk⟩ := List.mem_iff_getElem?.1 hj
      rw [assemble_getElem?, Option.map_eq_some_iff] at hk
      obtain ⟨i, _, rfl⟩ := hk
      exact placed_target_ne _ _ _ _ _
    · intro k j hj hjump
      exact landsAt_assemble hvisit hj hjump

def lenientSetting : Setting :=
  { program := default, owner := default, target := default, generation := default }

/-- Counts down from what is not negative. Two ways lead to the store with an item on the stack, and
the instruction behind it finds no operand. -/
def clamp : MethodDecl :=
  { name := "Clamp"
    parameters := [{ name := "x", type := .int32 }]
    returns := .int32
    isStatic := true
    body := [
      { offset := 0, code := .ldarg, operand := .index 0 },
      { offset := 1, code := .ldcI4, operand := .int 0 },
      { offset := 2, code := .bgt, operand := .target 13 },
      { offset := 7, code := .ldcI4, operand := .int 0 },
      { offset := 8, code := .br, operand := .target 16 },
      { offset := 13, code := .ldarg, operand := .index 0 },
      { offset := 14, code := .ldcI4, operand := .int 1 },
      { offset := 15, code := .sub },
      { offset := 16, code := .starg, operand := .index 0 },
      { offset := 17, code := .pop },
      { offset := 18, code := .ldarg, operand := .index 0 },
      { offset := 19, code := .brtrue, operand := .target 0 },
      { offset := 24, code := .ldarg, operand := .index 0 },
      { offset := 25, code := .ret }] }

/-- The jump to the store passes over the assignment that the other way needs, and the jump back leads
to the beginning. -/
theorem lowered_clamp_landsAt :
    ∃ result, lowerMethod lenientSetting clamp = .ok result ∧
      let code := result.method.body.instructions
      (∃ j, code[3]? = some j ∧ LandsAt lenientSetting clamp code 3 j 6) ∧
        ∃ j, code[7]? = some j ∧ LandsAt lenientSetting clamp code 7 j 0 := by
  have hcode : ((lowerMethod lenientSetting clamp).toOption.map fun result =>
      [3, 7].map fun k => result.method.body.instructions[k]?.map fun j =>
        (j.opcode.isJump, j.target)) =
      some [some (true, some (.position 6)), some (true, some (.position 0))] := by
    decide +kernel
  cases h : lowerMethod lenientSetting clamp with
  | error fault =>
    rw [h] at hcode
    cases hcode
  | ok result =>
    simp only [h, Except.toOption, Option.map_some, List.map_cons, List.map_nil,
      Option.some.injEq, List.cons.injEq, and_true, Option.map_eq_some_iff, Prod.mk.injEq] at hcode
    obtain ⟨⟨j, hj, hjump, htarget⟩, j', hj', hjump', htarget'⟩ := hcode
    obtain ⟨t, ht⟩ := (lowered_jump_landsAt h).2 3 j hj hjump
    obtain ⟨t', ht'⟩ := (lowered_jump_landsAt h).2 7 j' hj' hjump'
    cases htarget.symm.trans ht.target
    cases htarget'.symm.trans ht'.target
    exact ⟨result, rfl, ⟨j, hj, ht⟩, j', hj', ht'⟩

end Lowering

end PapyrusBackend
