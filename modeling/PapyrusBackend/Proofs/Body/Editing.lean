import PapyrusBackend.Proofs.Body.Numbering

namespace PapyrusBackend

def Target.move (place : Nat → Nat) : Target → Target
  | source offset => source offset
  | position t => position (place t)

theorem Target.move_id : Target.move id = id := by
  funext target
  cases target <;> rfl

def Target.Within (last : Nat) : Target → Prop
  | source _ => True
  | position t => t ≤ last

instance (last : Nat) : DecidablePred (Target.Within last) := fun target =>
  match target with
  | .source _ => inferInstanceAs (Decidable True)
  | .position t => inferInstanceAs (Decidable (t ≤ last))

theorem Target.Within.move {last last' : Nat} {target : Target} (h : target.Within last)
    {place : Nat → Nat} (hplace : ∀ t ≤ last, place t ≤ last') :
    (target.move place).Within last' := by
  cases target with
  | source offset => trivial
  | position t => exact hplace t h

namespace Instruction

variable {place : Nat → Nat} {i : Instruction}

/-- `j` is `i` in a body whose instructions have moved. Only the distance is written anew. -/
structure MovedTo (place : Nat → Nat) (i j : Instruction) : Prop where
  opcode : j.opcode = i.opcode
  variadic : j.variadic = i.variadic
  method : j.method = i.method
  target : j.target = i.target.map (Target.move place)
  argument {m : Nat} : m < i.arguments.length → i.distance? ≠ some m →
    j.arguments[m]? = i.arguments[m]?
  length : j.arguments.length = max i.arguments.length (i.distance?.elim 0 (· + 1))

theorem retarget_eq (place : Nat → Nat) (i : Instruction) :
    Body.retarget place i = { i with target := i.target.map (Target.move place) } := by
  obtain ⟨opcode, arguments, variadic, target, offset, method⟩ := i
  cases target with
  | none => rfl
  | some target => cases target <;> rfl

@[simp] theorem distance?_move (place : Nat → Nat) (i : Instruction) (offset : Nat) :
    { i with target := i.target.map (Target.move place), offset }.distance? = i.distance? := by
  obtain ⟨opcode, arguments, variadic, target, _, method⟩ := i
  cases target with
  | none => rfl
  | some target => cases target <;> rfl

theorem movedTo_withDelta (place : Nat → Nat) (i : Instruction) (offset : Nat) :
    MovedTo place i { Body.retarget place i with offset }.withDelta := by
  rw [retarget_eq]
  have hdistance := distance?_move place i offset
  cases h : i.distance? with
  | none =>
    rw [withDelta_of_distance?_eq_none (hdistance.trans h)]
    refine ⟨rfl, rfl, rfl, rfl, fun _ _ => rfl, ?_⟩
    rw [h]
    exact (Nat.max_zero _).symm
  | some n =>
    obtain ⟨t, -, -, hwritten⟩ := exists_withDelta (hdistance.trans h)
    rw [hwritten]
    refine ⟨rfl, rfl, rfl, rfl, fun hm hne => ?_, ?_⟩
    · rw [h] at hne
      exact getElem?_setArgument_of_ne (fun heq => hne (congrArg some heq.symm)) hm _
    · rw [h]
      exact length_setArgument ..

/-- Of the distances that are written one after the other, only the last stays. -/
theorem withDelta_withDelta {target : Option Target} {offset : Nat}
    (h : { i with target, offset }.distance? = i.distance?) :
    { i.withDelta with target, offset }.withDelta = { i with target, offset }.withDelta := by
  cases hi : i.distance? with
  | none => rw [withDelta_of_distance?_eq_none hi]
  | some n =>
    obtain ⟨_, -, -, hfirst⟩ := exists_withDelta hi
    obtain ⟨t, ht, hn, hsecond⟩ := exists_withDelta (h.trans hi)
    rw [hsecond, hfirst]
    simp only at ht hn
    simp only [withDelta, ht, hn, setArgument_setArgument]

/-- Nothing is left of a move that is taken back. -/
theorem withDelta_back {back : Nat → Nat} (h : ∀ t, back (place t) = t) (i : Instruction)
    (middle offset : Nat) :
    { Body.retarget back { Body.retarget place i with offset := middle }.withDelta with
      offset }.withDelta = { i with offset }.withDelta := by
  have hback : Target.move back ∘ Target.move place = id := by
    funext target
    cases target with
    | source offset => rfl
    | position t => exact congrArg Target.position (h t)
  simp only [retarget_eq, withDelta_target]
  rw [withDelta_withDelta]
  · simp only [Option.map_map, hback, Option.map_id, id]
  · exact distance?_move back
      { i with target := i.target.map (Target.move place), offset := middle } offset

end Instruction

namespace Body

def Within (b : Body) : Prop :=
  ∀ i ∈ b.instructions, ∀ target ∈ i.target, target.Within b.length

instance (b : Body) : Decidable b.Within :=
  inferInstanceAs (Decidable (∀ i ∈ b.instructions, ∀ target ∈ i.target, target.Within b.length))

/-- The instructions that are kept move, and so does the end. -/
structure Rearranged (b b' : Body) (kept : Nat → Prop) (place : Nat → Nat) : Prop where
  owner : b'.owner = b.owner
  «variables» : b'.variables = b.variables
  moved {k : Nat} {i : Instruction} : kept k → b.instructions[k]? = some i →
    ∃ j, b'.instructions[place k]? = some j ∧ i.MovedTo place j
  last : place b.length = b'.length

def afterInsert (index k : Nat) : Nat := if k < index then k else k + 1

/-- Where an instruction is once the one at `index` has been taken out. The place of the latter is
that of its successor. -/
def afterRemove (index k : Nat) : Nat := if k ≤ index then k else k - 1

structure Inserted (b : Body) (index : Nat) (x : Instruction) (b' : Body) : Prop where
  length : b'.length = b.length + 1
  rearranged : b.Rearranged b' (fun _ => True) (afterInsert index)
  inserted : ∃ j, b'.instructions[index]? = some j ∧ { x with method := b.owner }.MovedTo id j
  numbered : b'.Numbered
  within {k : Nat} {j : Instruction} {target : Target} : k ≠ index →
    b'.instructions[k]? = some j → j.target = some target → target.Within b'.length

/-- `b'` is `b` without an instruction. Jumps to the latter lead to its successor, or to the end. -/
structure Removed (b : Body) (index : Nat) (b' : Body) : Prop where
  length : b'.length + 1 = b.length
  rearranged : b.Rearranged b' (· ≠ index) (afterRemove index)
  successor {k : Nat} {i : Instruction} : k ≠ index → b.instructions[k]? = some i →
    i.target = some (.position index) → ∃ j, b'.instructions[afterRemove index k]? = some j ∧
      j.target = some (.position (afterRemove index (index + 1)))
  numbered : b'.Numbered
  within : b'.Within

variable {index k : Nat}

theorem afterRemove_afterInsert : afterRemove index (afterInsert index k) = k := by
  rw [afterInsert]
  split
  next h => rw [afterRemove, if_pos (Nat.le_of_lt h)]
  next h => rw [afterRemove, if_neg (by omega), Nat.add_sub_cancel]

theorem afterInsert_afterRemove (hne : k ≠ index) :
    afterInsert index (afterRemove index k) = k := by
  rw [afterRemove]
  split
  next h => rw [afterInsert, if_pos (Nat.lt_of_le_of_ne h hne)]
  next h => rw [afterInsert, if_neg (by omega), Nat.sub_add_cancel (by omega)]

theorem getElem?_insertIdx_afterInsert {α : Type} (l : List α) (x : α) :
    (l.insertIdx index x)[afterInsert index k]? = l[k]? := by
  rw [afterInsert]
  split
  next h => exact List.getElem?_insertIdx_of_lt h
  next h => rw [List.getElem?_insertIdx_of_gt (by omega), Nat.add_sub_cancel]

theorem getElem?_eraseIdx_afterInsert {α : Type} (l : List α) :
    (l.eraseIdx index)[k]? = l[afterInsert index k]? := by
  rw [List.getElem?_eraseIdx, afterInsert]
  split <;> rfl

section

variable {b : Body} (hindex : index ≤ b.length) (x : Instruction)

include hindex

theorem insert_eq :
    b.insert index x = renumber
      { b with
        instructions := (b.instructions.map (retarget (afterInsert index))).insertIdx index
          { x with method := b.owner } } := by
  have hplace : (fun t => if index ≤ t then t + 1 else t) = afterInsert index := by
    funext t
    rw [afterInsert]
    split <;> split <;> omega
  rw [insert, Nat.min_eq_left hindex, hplace]

theorem length_insert : (b.insert index x).length = b.length + 1 := by
  rw [insert_eq hindex, length_renumber]
  refine (List.length_insertIdx_of_le_length ?_ _).trans ?_
  · rwa [List.length_map]
  · rw [List.length_map, length]

theorem getElem?_insert_self :
    (b.insert index x).instructions[index]? =
      some { x with method := b.owner, offset := index }.withDelta := by
  rw [insert_eq hindex, getElem?_renumber, List.getElem?_insertIdx_self, if_pos, Option.map_some]
  rwa [List.length_map]

theorem getElem?_insert_afterInsert :
    (b.insert index x).instructions[afterInsert index k]? = b.instructions[k]?.map fun i =>
      { retarget (afterInsert index) i with offset := afterInsert index k }.withDelta := by
  rw [insert_eq hindex, getElem?_renumber, getElem?_insertIdx_afterInsert, List.getElem?_map,
    Option.map_map]
  rfl

theorem insert_rearranged :
    b.Rearranged (b.insert index x) (fun _ => True) (afterInsert index) := by
  refine ⟨?_, ?_, fun {k i} _ hi => ?_, ?_⟩
  · rw [insert_eq hindex, renumber_owner]
  · rw [insert_eq hindex, renumber_variables]
  · refine ⟨_, ?_, Instruction.movedTo_withDelta _ _ (afterInsert index k)⟩
    rw [getElem?_insert_afterInsert hindex, hi, Option.map_some]
  · rw [length_insert hindex, afterInsert, if_neg (Nat.not_lt.2 hindex)]

theorem insert_inserted (hwithin : b.Within) : Inserted b index x (b.insert index x) := by
  refine ⟨length_insert hindex x, insert_rearranged hindex x, ?_, ?_, ?_⟩
  · refine ⟨_, getElem?_insert_self hindex x, ?_⟩
    have hmoved := Instruction.movedTo_withDelta id { x with method := b.owner } index
    rwa [Instruction.retarget_eq, Target.move_id, Option.map_id] at hmoved
  · rw [insert_eq hindex]
    exact renumber_numbered _
  · intro k j target hk hj htarget
    rw [← afterInsert_afterRemove hk, getElem?_insert_afterInsert hindex] at hj
    obtain ⟨i, hi, rfl⟩ := Option.map_eq_some_iff.1 hj
    rw [(Instruction.movedTo_withDelta _ i _).target] at htarget
    obtain ⟨old, hold, rfl⟩ := Option.map_eq_some_iff.1 htarget
    rw [length_insert hindex]
    exact (hwithin i (List.mem_of_getElem? hi) old hold).move fun t ht => by
      rw [afterInsert]
      split <;> omega

end

section

variable {b : Body} {removed : Instruction} (hremoved : b.instructions[index]? = some removed)

include hremoved

theorem remove_eq :
    b.remove index = (some removed, renumber
      { b with
        instructions := (b.instructions.eraseIdx index).map (retarget (afterRemove index)) }) := by
  have hplace : (fun t => if index < t then t - 1 else t) = afterRemove index := by
    funext t
    rw [afterRemove]
    split <;> split <;> omega
  simp only [remove, hremoved, hplace]

theorem length_remove : (b.remove index).2.length + 1 = b.length := by
  obtain ⟨hindex, -⟩ := List.getElem?_eq_some_iff.1 hremoved
  rw [remove_eq hremoved, length_renumber, length, List.length_map,
    List.length_eraseIdx_of_lt hindex, length]
  omega

theorem getElem?_remove :
    (b.remove index).2.instructions[k]? = b.instructions[afterInsert index k]?.map fun i =>
      { retarget (afterRemove index) i with offset := k }.withDelta := by
  rw [remove_eq hremoved, getElem?_renumber, List.getElem?_map, getElem?_eraseIdx_afterInsert,
    Option.map_map]
  rfl

theorem remove_rearranged :
    b.Rearranged (b.remove index).2 (· ≠ index) (afterRemove index) := by
  have hindex : index < b.length := (List.getElem?_eq_some_iff.1 hremoved).1
  refine ⟨?_, ?_, fun {k i} hk hi => ?_, ?_⟩
  · rw [remove_eq hremoved, renumber_owner]
  · rw [remove_eq hremoved, renumber_variables]
  · refine ⟨_, ?_, Instruction.movedTo_withDelta _ _ (afterRemove index k)⟩
    rw [getElem?_remove hremoved, afterInsert_afterRemove hk, hi, Option.map_some]
  · have hlength := length_remove hremoved
    rw [afterRemove, if_neg (Nat.not_le.2 hindex)]
    omega

theorem remove_removed (hwithin : b.Within) : Removed b index (b.remove index).2 := by
  have hindex : index < b.length := (List.getElem?_eq_some_iff.1 hremoved).1
  have hlength := length_remove hremoved
  have hrearranged := remove_rearranged hremoved
  refine ⟨hlength, hrearranged, fun hk hi htarget => ?_, ?_, ?_⟩
  · obtain ⟨j, hj, hij⟩ := hrearranged.moved hk hi
    refine ⟨j, hj, ?_⟩
    rw [hij.target, htarget]
    simp [Target.move, afterRemove]
  · rw [remove_eq hremoved]
    exact renumber_numbered _
  · intro j hj target htarget
    obtain ⟨k, hk⟩ := List.mem_iff_getElem?.1 hj
    rw [getElem?_remove hremoved] at hk
    obtain ⟨i, hi, rfl⟩ := Option.map_eq_some_iff.1 hk
    rw [(Instruction.movedTo_withDelta _ i _).target] at htarget
    obtain ⟨old, hold, rfl⟩ := Option.map_eq_some_iff.1 htarget
    exact (hwithin i (List.mem_of_getElem? hi) old hold).move fun t ht => by
      rw [afterRemove]
      split <;> omega

end

/-- Taking out what has just been put in leaves the numbering alone. -/
theorem remove_insert {b : Body} (hindex : index ≤ b.length) (x : Instruction) :
    (b.insert index x).remove index = ((b.insert index x).instructions[index]?, b.renumber) := by
  have hself := getElem?_insert_self hindex x
  have hinstructions :
      ((b.insert index x).remove index).2.instructions = b.renumber.instructions := by
    apply List.ext_getElem?
    intro k
    rw [getElem?_remove hself, getElem?_insert_afterInsert hindex, getElem?_renumber,
      Option.map_map]
    congr 1
    funext i
    exact Instruction.withDelta_back (fun _ => afterRemove_afterInsert) i _ k
  have hbody : ((b.insert index x).remove index).2 =
      { b with instructions := ((b.insert index x).remove index).2.instructions } := by
    rw [remove_eq hself, insert_eq hindex]
    rfl
  refine Prod.ext ?_ ?_
  · rw [remove_eq hself, hself]
  · rw [hbody, hinstructions]
    rfl

theorem edit_keeps_jumps (b : Body) (hwithin : b.Within) (index : Nat) (x : Instruction) :
    (index ≤ b.length → b.Inserted index x (b.insert index x) ∧
      (b.insert index x).remove index =
        ((b.insert index x).instructions[index]?, b.renumber)) ∧
    (index < b.length → (b.remove index).1 = b.instructions[index]? ∧
      b.Removed index (b.remove index).2) ∧
    (b.length ≤ index → b.remove index = (none, b)) := by
  refine ⟨fun hindex => ?_, fun hindex => ?_, fun hindex => ?_⟩
  · exact ⟨insert_inserted hindex x hwithin, remove_insert hindex x⟩
  · have hremoved := List.getElem?_eq_getElem hindex
    refine ⟨?_, remove_removed hremoved hwithin⟩
    rw [remove_eq hremoved, hremoved]
  · rw [remove, List.getElem?_eq_none hindex]

def countdown : Body :=
  renumber
    { owner := "Count"
      «variables» := [⟨"n", "Int"⟩, ⟨"::temp0", "Bool"⟩]
      instructions :=
        [{ opcode := .cmpLt, arguments := [.reference "::temp0", .reference "n", .int 1] },
          .jumpIf true (.reference "::temp0") (some (.position 4)),
          { opcode := .isub, arguments := [.reference "n", .reference "n", .int 1] },
          .jump (some (.position 0))] }

theorem edit_keeps_jumps_countdown :
    countdown.Within ∧
      (countdown.Inserted 1 (.assign "m" (.reference "n"))
          (countdown.insert 1 (.assign "m" (.reference "n"))) ∧
        (countdown.insert 1 (.assign "m" (.reference "n"))).remove 1 =
          ((countdown.insert 1 (.assign "m" (.reference "n"))).instructions[1]?,
            countdown.renumber)) ∧
      ((countdown.remove 0).1 = countdown.instructions[0]? ∧
        countdown.Removed 0 (countdown.remove 0).2) ∧
      countdown.remove 4 = (none, countdown) := by
  have hwithin : countdown.Within := by decide
  refine ⟨hwithin, ?_, ?_, ?_⟩
  · exact (edit_keeps_jumps countdown hwithin 1 _).1 (by decide)
  · exact (edit_keeps_jumps countdown hwithin 0 (.assign "m" .none)).2.1 (by decide)
  · exact (edit_keeps_jumps countdown hwithin 4 (.assign "m" .none)).2.2 (by decide)

/-- A jump that is put in may lead so far ahead that no word holds its distance. -/
theorem inserted_distance_wraps :
    ¬ ∀ (b : Body) (index : Nat) (x : Instruction), b.Within → index ≤ b.length →
      (b.insert index x).length < 2 ^ 31 →
        ∀ (k t : Nat) (i : Instruction), (b.insert index x).instructions[k]? = some i →
          i.opcode.isJump = true → i.target = some (.position t) →
            ∃ d : Int32, i.delta? = some d ∧ d.toInt = (t : Int) - k := by
  intro h
  obtain ⟨d, hd, hdistance⟩ := h { owner := "M" } 0 (.jump (some (.position (2 ^ 32))))
    (by decide) (by decide) (by decide) 0 (2 ^ 32) _ rfl rfl rfl
  have hzero : d = 0 := by
    rw [← Option.some_inj, ← hd]
    decide
  subst hzero
  revert hdistance
  decide

end Body

end PapyrusBackend
