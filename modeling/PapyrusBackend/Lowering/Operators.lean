import PapyrusBackend.Lowering.Destination

namespace PapyrusBackend.Lowering.Lower

open Source

def misrouted (i : Instr) (group : String) : Lower α :=
  throw (.unsupported (i.code.title ++ " routed to the " ++ group ++ " processor"))

def binaryOpcode? (code : Code) (float : Bool) : Option Opcode :=
  match code with
  | .add => some (if float then .fadd else .iadd)
  | .sub => some (if float then .fsub else .isub)
  | .mul => some (if float then .fmul else .imul)
  | .div => some (if float then .fdiv else .idiv)
  | .rem => some .imod
  | _ => none

def unaryOpcode (code : Code) (float : Bool) : Opcode × String :=
  if code = .not then (.not, "Bool") else if float then (.fneg, "Float") else (.ineg, "Int")

def unary (f : Frame) (i : Instr) : Lower (List Instruction) := do
  let item ← popOperand f i
  let (opcode, type) := unaryOpcode i.code item.isFloat
  let staged ← stage item
  produce f type staged.code fun d => { opcode, arguments := [d, staged.value] }

/-- Floats win over integers, except that a remainder is always an integer. -/
def binary (f : Frame) (i : Instr) : Lower (List Instruction) := do
  let (a, b) ← popPair f i
  let float := a.isFloat || b.isFloat
  match binaryOpcode? i.code float with
  | none => misrouted i "arithmetic"
  | some opcode => do
    let (code, lhs, rhs) ← stagePair a b
    let type := if float && i.code ≠ .rem then "Float" else "Int"
    produce f type code fun d => { opcode, arguments := [d, lhs, rhs] }

def arithmetic (f : Frame) (i : Instr) : Lower (List Instruction) :=
  match i.code with
  | .neg | .not => unary f i
  | _ => binary f i

def comparisonOpcode? : Code → Option Opcode
  | .ceq => some .cmpEq
  | .cgt | .cgtUn => some .cmpGt
  | .clt | .cltUn => some .cmpLt
  | _ => none

def conditional (f : Frame) (i : Instr) : Lower (List Instruction) := do
  match comparisonOpcode? i.code with
  | none => misrouted i "conditional"
  | some opcode => do
    let (a, b) ← popPair f i
    let (code, lhs, rhs) ← stagePair a b
    produce f "Bool" code fun d => { opcode, arguments := [d, lhs, rhs] }

/-- An equality operator. A result that is stored is compared at once; otherwise the comparison
stays on the stack for the branch that follows. -/
def equality (f : Frame) (items : List Item) (inequality : Bool) : Lower (List Instruction) := do
  match items with
  | [a, b] => do
    modify fun s => { s with inverted := inequality }
    let (code, lhs, rhs) ← stagePair a b
    let pending : Lower (List Instruction) := do
      modify fun s => { s with skipTo := f.next?.map Instr.offset }
      push { content := .comparison .cmpEq lhs rhs, type := "Bool" }
      return code
    match f.next? with
    | none => pending
    | some next =>
      if next.code.isStore then
        let d ← destination f "Bool"
        let made : Instruction := { opcode := .cmpEq, arguments := [d.value, lhs, rhs] }
        modify fun s => { s with inverted := false }
        let rest ← finish d
        return code ++ made :: (if inequality then negation d.value :: rest else rest)
      else pending
  | _ =>
    throw (.unsupported (f.method.name ++ ": equality operator with " ++ toString items.length ++
      " operands"))

def branchOpcode? : Code → Option (Opcode × Bool)
  | .beq => some (.cmpEq, true)
  | .bneUn => some (.cmpEq, false)
  | .bgt | .bgtUn => some (.cmpGt, true)
  | .bge | .bgeUn => some (.cmpGe, true)
  | .blt | .bltUn => some (.cmpLt, true)
  | .ble | .bleUn => some (.cmpLe, true)
  | _ => none

/-- The condition of a branch on truth, and the outcome on which it is taken. -/
def stageCondition (item : Item) (expected : Bool) : Lower (Staged × Bool) := do
  match item.content with
  | .comparison opcode lhs rhs => do
    let made ← materialize opcode lhs rhs
    let inverted ← takeInverted
    return (made, expected ^^ inverted)
  | _ => return (← stage item, expected)

def branchOnTruth (f : Frame) (i : Instr) (offset : UInt32) (expected : Bool) :
    Lower (List Instruction) := do
  let item ← popOperand f i
  let (condition, expected) ← stageCondition item expected
  let carried ← spill f offset true
  return condition.code ++ carried ++ [.jumpIf expected condition.value (some (.source offset))]

def branchOnComparison (f : Frame) (i : Instr) (offset : UInt32) : Lower (List Instruction) := do
  match branchOpcode? i.code with
  | none => misrouted i "branch"
  | some (opcode, expected) => do
    let (a, b) ← popPair f i
    let (code, lhs, rhs) ← stagePair a b
    let condition ← materialize opcode lhs rhs
    let carried ← spill f offset true
    return code ++ condition.code ++ carried ++
      [.jumpIf expected condition.value (some (.source offset))]

def branch (f : Frame) (i : Instr) : Lower (List Instruction) := do
  let offset ← need i.target? (i.code.title ++ " without target")
  match i.code with
  | .br => do
    let carried ← spill f offset false
    return carried ++ [.jump (some (.source offset))]
  | .brtrue => branchOnTruth f i offset true
  | .brfalse => branchOnTruth f i offset false
  | _ => branchOnComparison f i offset

def cast (f : Frame) (i : Instr) (type : String) : Lower (List Instruction) := do
  let item ← popOperand f i
  let keep (item : Item) : Lower (List Instruction) := do
    push item
    return []
  let convert : Lower (List Instruction) := do
    if Text.sameName item.type type then keep item
    else
      let staged ← stage item
      produce f type staged.code fun d => { opcode := .cast, arguments := [d, staged.value] }
  match item.content with
  | .literal (.int n) => keep (.ofValue (f.coerce type (.int n)))
  | .literal (.float x) => keep (.ofValue (f.coerce type (.float x)))
  | _ => convert

def shuffle (f : Frame) (i : Instr) : Lower (List Instruction) := do
  match i.code with
  | .dup => do
    require f i 1
    modify fun s => { s with stack := s.stack.take 1 ++ s.stack }
    return []
  | .pop => do
    let _ ← popOperand f i
    return []
  | .box => do
    require f i 1
    return []
  | .convR4 | .convR8 => cast f i "Float"
  | .convI4 => cast f i "Int"
  | _ => misrouted i "stack"

def giveBack (f : Frame) (i : Instr) : Lower (List Instruction) := do
  if f.method.returns.isVoid then return [{ opcode := .ret, arguments := [.none] }]
  let item ← popOperand f i
  let staged ← stage item
  let value := f.coerce (Naming.typeName f.method.returns) staged.value
  return staged.code ++ [{ opcode := .ret, arguments := [value] }]

end PapyrusBackend.Lowering.Lower
