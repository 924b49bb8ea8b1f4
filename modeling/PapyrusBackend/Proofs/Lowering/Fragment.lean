import Mathlib.Tactic.MkIffOfInductiveProp
import PapyrusBackend.Lowering.MethodCode
import PapyrusBackend.Proofs.Semantics.Managed

namespace PapyrusBackend.Lowering

open Source Semantics

def operandNames : Value → List String
  | .reference name => [name]
  | _ => []

/-- The variables whose values make up that of an item, not yet read. -/
def Item.reads (item : Item) : List String :=
  match item.content with
  | .held v => [v.name]
  | .member source _ => [source.name]
  | .comparison _ lhs rhs => operandNames lhs ++ operandNames rhs
  | .literal _ | .method _ => []

inductive IntegerCode : Code → Operand → Prop
  | nop : IntegerCode .nop .none
  | ldarg (k : UInt16) : IntegerCode .ldarg (.index k)
  | ldloc (k : UInt16) : IntegerCode .ldloc (.index k)
  | ldcI4 (n : Int32) : IntegerCode .ldcI4 (.int n)
  | stloc (k : UInt16) : IntegerCode .stloc (.index k)
  | starg (k : UInt16) : IntegerCode .starg (.index k)
  | operator {code : Code} {op : Operator} (h : Operator.ofCode? code = some op) :
    IntegerCode code .none
  | neg : IntegerCode .neg .none
  | dup : IntegerCode .dup .none
  | pop : IntegerCode .pop .none
  | ret : IntegerCode .ret .none
  | br (offset : UInt32) : IntegerCode .br (.target offset)
  | brtrue (offset : UInt32) : IntegerCode .brtrue (.target offset)
  | brfalse (offset : UInt32) : IntegerCode .brfalse (.target offset)
  | compare {code : Code} {c : Comparison × Bool} (h : Comparison.ofBranch? code = some c)
    (offset : UInt32) : IntegerCode code (.target offset)

def parameterVariables (m : MethodDecl) : List Variable :=
  m.parameters.map fun p => { name := p.name, type := Naming.typeName p.type }

def slotVariable? (m : MethodDecl) : Managed.Slot → Option Variable
  | .argument k => (parameterVariables m)[k]?
  | .local k => (localVariables m)[k]?

def slotNames (m : MethodDecl) : List String :=
  (parameterVariables m ++ localVariables m).map Variable.name

structure IntegerMethod (m : MethodDecl) : Prop where
  isStatic : m.isStatic = true
  hasCode : m.isNative = false
  parameters : ∀ p ∈ m.parameters, p.type = .int32
  locals : ∀ l ∈ m.locals, l.type = .int32
  returns : m.returns = .int32 ∨ m.returns = .void
  distinct : (slotNames m).Nodup
  notTemporary : ∀ name ∈ slotNames m, ¬"::temp".toList <+: name.toList
  code : ∀ i ∈ m.body, IntegerCode i.code i.operand ∧ i.pop = i.code.defaultPop
  ascending : m.body.Pairwise fun i j => i.offset < j.offset
  targets : ∀ i ∈ m.body, ∀ offset ∈ i.target?, ∃ j ∈ m.body, j.offset = offset

def storedSlot? (i : Instr) : Option Managed.Slot :=
  match i.code, i.operand with
  | .stloc, .index k => some (.local k.toNat)
  | .starg, .index k => some (.argument k.toNat)
  | _, _ => none

/-- What is asked of an instruction, given the simulation before and after it. A store that its
predecessor has taken care of is asked the same. -/
@[mk_iff]
structure Tidy (f : Frame) (i : Instr) (before after : Simulation) : Prop where
  branch : i.code.category = .branch → before.stack.drop (i.pop.count 0 0) = []
  target : f.isBranchTarget i.offset = true → before.stack = []
  store : ∀ slot ∈ storedSlot? i, ∀ v ∈ slotVariable? f.method slot, ∀ item ∈ after.stack,
    v.name ∉ item.reads

instance (f : Frame) (i : Instr) (before after : Simulation) : Decidable (Tidy f i before after) :=
  decidable_of_iff _ (tidy_iff f i before after).symm

def TidyFrom (f : Frame) (policy : Policy) : Nat → UInt16 → List Instr → Simulation → Prop
  | _, _, [], _ => True
  | position, line, i :: rest, s =>
    match Lower.visit { f with position } policy (i.line.getD line) i s with
    | .ok _ s' => Tidy f i s s' ∧ TidyFrom f policy (position + 1) (i.line.getD line) rest s'
    | .error _ _ => False

instance TidyFrom.decidable (f : Frame) (policy : Policy) :
    ∀ position line instrs s, Decidable (TidyFrom f policy position line instrs s)
  | _, _, [], _ => .isTrue trivial
  | position, line, i :: rest, s =>
    match h : Lower.visit { f with position } policy (i.line.getD line) i s with
    | .ok _ s' =>
      have := TidyFrom.decidable f policy (position + 1) (i.line.getD line) rest s'
      decidable_of_iff (Tidy f i s s' ∧ TidyFrom f policy (position + 1) (i.line.getD line) rest s')
        (by simp only [TidyFrom, h])
    | .error _ _ => .isFalse (by simp only [TidyFrom, h, not_false_eq_true])

def TidyMethod (setting : Setting) (m : MethodDecl) : Prop :=
  TidyFrom (setting.frame m) setting.policy 0 0 m.body
    (.start m setting.owner.delegateBindings)

instance (setting : Setting) (m : MethodDecl) : Decidable (TidyMethod setting m) :=
  TidyFrom.decidable ..

end PapyrusBackend.Lowering
