import PapyrusBackend.Proofs.Lowering.IntegerStep
import PapyrusBackend.Proofs.Lowering.Placement
import PapyrusBackend.Proofs.Semantics.Script

namespace PapyrusBackend.Lowering

open Semantics

variable {V : Type} {I : Interpretation V} {env : String → V} {p : Nat} {a b : Value} {x y : V}
  {owner : String} {land : UInt32 → Nat}

/-- An instruction that does not jump does the same wherever it stands. -/
theorem execute_placed {i : Instruction} (h : i.target = none) (s : Script.State V) :
    Script.execute I (placed owner land p i) s = Script.execute I i s := by
  obtain ⟨opcode, arguments, variadic, target, offset, method⟩ := i
  cases h
  rfl

theorem execute_assign (d : String) (ha : Script.eval I env a = some x) :
    Script.execute I (.assign d a) ⟨p, env⟩ = .next ⟨p + 1, Function.update env d x⟩ := by
  simp only [Instruction.assign, Script.execute, ha, Script.State.write]

theorem execute_neg (d : Variable) (ha : Script.eval I env a = some x) :
    Script.execute I { opcode := .ineg, arguments := [d.value, a] } ⟨p, env⟩ =
      .next ⟨p + 1, Function.update env d.name (I.neg x)⟩ := by
  simp only [Script.execute, ha, Option.map_some, Variable.value, Script.State.write]

theorem execute_operator (op : Operator) (d : Variable) (ha : Script.eval I env a = some x)
    (hb : Script.eval I env b = some y) :
    Script.execute I { opcode := operatorOpcode op, arguments := [d.value, a, b] } ⟨p, env⟩ =
      .next ⟨p + 1, Function.update env d.name (I.operate op x y)⟩ := by
  cases op <;>
    simp only [Script.execute, operatorOpcode, Script.binary?, Operator.ofOpcode?, ha, hb,
      Option.map_some, Option.some_or, Variable.value, Script.State.write]

theorem execute_compare (c : Comparison) (d : Variable) (ha : Script.eval I env a = some x)
    (hb : Script.eval I env b = some y) :
    Script.execute I { opcode := comparisonOpcode c, arguments := [d.value, a, b] } ⟨p, env⟩ =
      .next ⟨p + 1, Function.update env d.name (I.compare c x y)⟩ := by
  cases c <;>
    simp only [Script.execute, comparisonOpcode, Script.binary?, Operator.ofOpcode?,
      Comparison.ofOpcode?, ha, hb, Option.map_some, Option.map_none, Option.none_or,
      Variable.value, Script.State.write]

theorem execute_ret (ha : Script.eval I env a = some x) :
    Script.execute I { opcode := .ret, arguments := [a] } ⟨p, env⟩ =
      .halt (.returned (some x)) := by
  cases a with
  | none => cases ha
  | _ => simp only [Script.execute, ha]

theorem execute_jump (offset : UInt32) :
    Script.execute I (placed owner land p (.jump (some (.source offset)))) ⟨p, env⟩ =
      .next ⟨land offset, env⟩ :=
  if_pos rfl

/-- A conditional jump is taken if its condition turns out as expected. -/
theorem execute_jumpIf (expected : Bool) (offset : UInt32) (ha : Script.eval I env a = some x) :
    Script.execute I (placed owner land p (.jumpIf expected a (some (.source offset)))) ⟨p, env⟩ =
      .next ⟨if I.truth x == expected then land offset else p + 1, env⟩ := by
  have hjump : Script.State.jump (V := V) ⟨p, env⟩
      (placed owner land p (.jumpIf expected a (some (.source offset)))) =
        .next ⟨land offset, env⟩ := by
    cases expected <;> exact if_pos rfl
  cases expected with
  | true =>
    show Script.State.jumpIf _ _ ((Script.eval I env a).map I.truth) = _
    rw [ha, Option.map_some]
    cases I.truth x with
    | true => exact hjump
    | false => rfl
  | false =>
    show Script.State.jumpIf _ _ ((Script.eval I env a).map fun v => !I.truth v) = _
    rw [ha, Option.map_some]
    cases I.truth x with
    | true => rfl
    | false => exact hjump

end PapyrusBackend.Lowering
