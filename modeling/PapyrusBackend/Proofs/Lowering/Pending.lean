import PapyrusBackend.Proofs.Lowering.ConfinedCall
import PapyrusBackend.Proofs.Lowering.Meaning

namespace PapyrusBackend.Lowering

open Source Semantics

/-- The items that an instruction takes from the stack, with the object of a store into one if that is
made at once. -/
def takenCount (f : Frame) (i : Instr) (stack : Stack) : Nat :=
  operandCount f i stack + if i.code.category = .store then 0 else holderCount f

variable {f : Frame} {i : Instr} {s s' : Simulation} {code : List Instruction}

theorem step_confined (hs : Sound s) (h : Lower.step f i s = .ok code s') :
    Confined (takenCount f i s.stack) s code s' := by
  rw [Lower.step] at h
  cases hcategory : i.code.category with
  | nop =>
    simp only [hcategory] at h
    cases h
    exact .of_scratch .nil
  | load =>
    simp only [hcategory] at h
    simp only [takenCount, hcategory, reduceCtorEq, if_false]
    exact Lower.load_confined hs h
  | store =>
    simp only [hcategory] at h
    have hcount : takenCount f i s.stack = i.code.defaultPop.count 0 0 := by
      simp only [takenCount, hcategory, if_true, operandCount]
      revert hcategory
      cases i.code <;> intro hcategory <;> first | rfl | cases hcategory
    rw [hcount]
    exact .of_taken (Lower.store_taken hs h)
  | call =>
    simp only [hcategory] at h
    simp only [takenCount, hcategory, reduceCtorEq, if_false]
    exact Lower.call_confined hs hcategory h
  | branch =>
    simp only [hcategory] at h
    exact Lower.branch_confined hs h
  | ret =>
    simp only [hcategory] at h
    exact Lower.giveBack_confined hs h
  | conditional =>
    simp only [hcategory] at h
    have hcount : takenCount f i s.stack = 2 + holderCount f := by
      simp only [takenCount, hcategory, reduceCtorEq, if_false, operandCount]
      revert hcategory
      cases i.code <;> intro hcategory <;> first | rfl | cases hcategory
    rw [hcount]
    exact Lower.conditional_confined hs h
  | arithmetic =>
    simp only [hcategory] at h
    simp only [takenCount, hcategory, reduceCtorEq, if_false]
    exact Lower.arithmetic_confined hs hcategory h
  | stack =>
    simp only [hcategory] at h
    have hcount : takenCount f i s.stack = 1 + holderCount f := by
      simp only [takenCount, hcategory, reduceCtorEq, if_false, operandCount]
      revert hcategory
      cases i.code <;> intro hcategory <;> first | rfl | cases hcategory
    rw [hcount]
    exact Lower.shuffle_confined hs h

/-- An instruction that assigns a variable of the method or of the object leaves on the stack what lay
below the items that it takes, and nothing is done about items there that refer to the variable: none
does afterwards, exactly if none did before. -/
theorem not_reads_assigned_iff (hs : Sound s) (h : Lower.step f i s = .ok code s') {name : String}
    (hassigned : name ∈ assignedNames code) (hvariable : ¬Auxiliary s name) :
    s'.stack = s.stack.drop (takenCount f i s.stack) ∧
      ((∀ item ∈ s'.stack, name ∉ item.reads) ↔
        ∀ item ∈ s.stack.drop (takenCount f i s.stack), name ∉ item.reads) := by
  obtain hauxiliary | hstack := step_confined hs h
  · exact absurd (hauxiliary name hassigned) hvariable
  · refine ⟨hstack, ?_⟩
    rw [hstack]

theorem Scratch.starts_with_colons {name : String} (h : Scratch name) :
    "::".toList <+: name.toList := by
  obtain ⟨k, rfl⟩ | rfl := h
  · rw [Lower.temporaryName, String.toList_append]
    have hcolons : "::".toList <+: "::temp".toList := by simp
    exact hcolons.trans (List.prefix_append _ _)
  · simp [Lower.noneVariable]

def postIncrement : MethodDecl :=
  { name := "Next"
    returns := .int32
    isStatic := true
    locals := [{ name := some "x", type := .int32 }]
    body := [
      { offset := 0, code := .ldloc, operand := .index 0 },
      { offset := 1, code := .dup },
      { offset := 2, code := .ldcI4, operand := .int 1 },
      { offset := 3, code := .add },
      { offset := 4, code := .stloc, operand := .index 0 },
      { offset := 5, code := .ret }] }

def beforeAddition : Simulation :=
  let x : Item := .ofVariable { name := "x", type := "Int" }
  { Simulation.start postIncrement [] with stack := [.ofValue (.int 1), x, x] }

def afterAddition : Simulation :=
  { beforeAddition with stack := beforeAddition.stack.drop 2, skipNext := true }

theorem step_addition :
    Lower.step { strictSetting.frame postIncrement with position := 3 }
        { offset := 3, code := .add } beforeAddition =
      .ok [{ opcode := .iadd, arguments := [.reference "x", .reference "x", .int 1] }]
        afterAddition := by
  decide +kernel

theorem not_auxiliary_x : ¬Auxiliary beforeAddition "x" := by
  rintro (hscratch | ⟨join, hjoin, _⟩)
  · exact absurd hscratch.starts_with_colons (by simp)
  · exact absurd hjoin List.not_mem_nil

theorem not_reads_assigned_iff_addition :
    afterAddition.stack = [.ofVariable { name := "x", type := "Int" }] ∧
      ((∀ item ∈ afterAddition.stack, "x" ∉ item.reads) ↔
        ∀ item ∈ [Item.ofVariable { name := "x", type := "Int" }], "x" ∉ item.reads) :=
  not_reads_assigned_iff (by decide) step_addition (by decide) not_auxiliary_x

/-- The item below the operands is read after the addition has overwritten its variable, so that the
script gives back the new value instead of the old one. -/
theorem pending_load_reads_new_value :
    (∃ f i s code s' name, Sound s ∧ Lower.step f i s = .ok code s' ∧
      name ∈ assignedNames code ∧ ¬Auxiliary s name ∧ ∃ item ∈ s'.stack, name ∈ item.reads) ∧
    ∃ result, lowerMethod strictSetting postIncrement = .ok result ∧
      Halts (Managed.step wordArithmetic postIncrement) { slots := fun _ => 3 }
        (.returned (some 3)) ∧
      Halts (Script.step wordArithmetic result.method.body.instructions) { env := fun _ => 3 }
        (.returned (some 4)) := by
  constructor
  · exact ⟨_, _, _, _, _, "x", by decide, step_addition, by decide, not_auxiliary_x, by decide⟩
  · have hrun : ((lowerMethod strictSetting postIncrement).toOption.bind fun result =>
        run (Script.step wordArithmetic result.method.body.instructions) 10 { env := fun _ => 3 }) =
          some (.returned (some 4)) := by
      decide +kernel
    cases h : lowerMethod strictSetting postIncrement with
    | error fault =>
      rw [h] at hrun
      cases hrun
    | ok result =>
      rw [h] at hrun
      exact ⟨result, rfl, halts_of_run 10 (by decide +kernel), halts_of_run 10 hrun⟩

end PapyrusBackend.Lowering
