import Mathlib.Algebra.Group.Int.Defs
import Mathlib.Algebra.Group.Nat.Defs
import PapyrusBackend.Body

namespace PapyrusBackend

namespace Instruction

theorem length_setArgument (k : Nat) (value : Value) (arguments : List Value) :
    (setArgument k value arguments).length = max arguments.length (k + 1) := by
  simp only [setArgument, List.length_set, List.length_append, List.length_replicate]
  omega

theorem getElem?_setArgument (k : Nat) (value : Value) (arguments : List Value) :
    (setArgument k value arguments)[k]? = some value := by
  have hlength : k < (arguments ++ List.replicate (k + 1 - arguments.length) Value.none).length := by
    rw [List.length_append, List.length_replicate]
    omega
  rw [setArgument, List.getElem?_set_self hlength]

theorem getElem?_setArgument_of_ne {k m : Nat} (hne : m ≠ k) {arguments : List Value}
    (hm : m < arguments.length) (value : Value) :
    (setArgument k value arguments)[m]? = arguments[m]? := by
  rw [setArgument, List.getElem?_set_ne hne.symm, List.getElem?_append_left hm]

theorem setArgument_setArgument (k : Nat) (value other : Value) (arguments : List Value) :
    setArgument k value (setArgument k other arguments) = setArgument k value arguments := by
  have henough : k + 1 - (setArgument k other arguments).length = 0 := by
    rw [length_setArgument]
    omega
  rw [setArgument, henough, List.replicate_zero, List.append_nil, setArgument, List.set_set,
    ← setArgument]

@[simp] theorem withDelta_opcode (i : Instruction) : i.withDelta.opcode = i.opcode := by
  rw [withDelta]
  split <;> rfl

@[simp] theorem withDelta_target (i : Instruction) : i.withDelta.target = i.target := by
  rw [withDelta]
  split <;> rfl

@[simp] theorem withDelta_offset (i : Instruction) : i.withDelta.offset = i.offset := by
  rw [withDelta]
  split <;> rfl

@[simp] theorem withDelta_method (i : Instruction) : i.withDelta.method = i.method := by
  rw [withDelta]
  split <;> rfl

theorem getElem?_withDelta_arguments {i : Instruction} {n t : Nat}
    (hn : i.opcode.jumpArgument? = some n) (ht : i.target = some (.position t)) :
    i.withDelta.arguments[n]? = some (.int (Int32.ofInt (t - i.offset))) := by
  simp only [withDelta, ht, hn, getElem?_setArgument]

theorem delta?_withDelta {i : Instruction} (hjump : i.opcode.isJump = true) {t : Nat}
    (ht : i.target = some (.position t)) :
    i.withDelta.delta? = some (Int32.ofInt (t - i.offset)) := by
  obtain ⟨k, hk⟩ := Option.isSome_iff_exists.1 hjump
  rw [delta?, withDelta_opcode, hk, Option.bind_some, getElem?_withDelta_arguments hk ht]

def distance? (i : Instruction) : Option Nat :=
  match i.target with
  | some (.position _) => i.opcode.jumpArgument?
  | _ => none

theorem withDelta_of_distance?_eq_none {i : Instruction} (h : i.distance? = none) :
    i.withDelta = i := by
  rw [distance?] at h
  rw [withDelta]
  split
  next t k ht hk =>
    rw [ht] at h
    rw [hk] at h
    cases h
  next => rfl

theorem exists_withDelta {i : Instruction} {n : Nat} (h : i.distance? = some n) :
    ∃ t, i.target = some (.position t) ∧ i.opcode.jumpArgument? = some n ∧ i.withDelta =
      { i with arguments := setArgument n (.int (Int32.ofInt (t - i.offset))) i.arguments } := by
  rw [distance?] at h
  split at h
  next t ht =>
    refine ⟨t, ht, h, ?_⟩
    simp only [withDelta, ht, h]
  next => cases h

end Instruction

namespace Body

/-- Every offset is the place of its instruction, and every jump to a position carries the distance,
as far as a word can hold it. -/
structure Numbered (b : Body) : Prop where
  offset {k : Nat} {i : Instruction} : b.instructions[k]? = some i → i.offset = k
  distance {k t : Nat} {i : Instruction} : b.instructions[k]? = some i → i.opcode.isJump = true →
    i.target = some (.position t) → ∃ (n : Nat) (d : Int32), i.opcode.jumpArgument? = some n ∧
      i.arguments[n]? = some (.int d) ∧ d.toInt = ((t : Int) - k).bmod (2 ^ 32) ∧
      (b.length < 2 ^ 31 → (t : Int) - k < 2 ^ 31 → d.toInt = t - k)

variable (b : Body)

@[simp] theorem renumber_owner : b.renumber.owner = b.owner := rfl

@[simp] theorem renumber_variables : b.renumber.variables = b.variables := rfl

theorem getElem?_renumber (k : Nat) :
    b.renumber.instructions[k]? =
      b.instructions[k]?.map fun i => { i with offset := k }.withDelta :=
  List.getElem?_mapIdx

@[simp] theorem length_renumber : b.renumber.length = b.length := List.length_mapIdx

theorem renumber_numbered : b.renumber.Numbered := by
  refine ⟨fun {k i} hi => ?_, fun {k t i} hi hjump ht => ?_⟩
  · obtain ⟨j, -, rfl⟩ := Option.map_eq_some_iff.1 (b.getElem?_renumber k ▸ hi)
    exact Instruction.withDelta_offset _
  · have hk : k < b.length := b.length_renumber ▸ (List.getElem?_eq_some_iff.1 hi).1
    obtain ⟨j, -, rfl⟩ := Option.map_eq_some_iff.1 (b.getElem?_renumber k ▸ hi)
    rw [Instruction.withDelta_opcode] at hjump
    rw [Instruction.withDelta_target] at ht
    obtain ⟨n, hn⟩ := Option.isSome_iff_exists.1 hjump
    refine ⟨n, Int32.ofInt (t - k), ?_, Instruction.getElem?_withDelta_arguments hn ht,
      Int32.toInt_ofInt, ?_⟩
    · rw [Instruction.withDelta_opcode, hn]
    · intro hlength hfar
      rw [length_renumber] at hlength
      apply Int32.toInt_ofInt_of_le
      · omega
      · omega

end Body

end PapyrusBackend
