import PapyrusBackend.Lowering.Simulation

namespace PapyrusBackend.Lowering.Lower

/-- Code that must run, and the operand that is then at hand. -/
structure Staged where
  code : List Instruction := []
  value : Value
  deriving DecidableEq, Inhabited

def materialize (opcode : Opcode) (lhs rhs : Value) : Lower Staged := do
  let v ← temporary "Bool"
  return { code := [{ opcode, arguments := [v.value, lhs, rhs] }], value := v.value }

/-- Whether the pending comparison is read the other way round. Asking settles it. -/
def takeInverted : Lower Bool := do
  let s ← get
  set { s with inverted := false }
  return s.inverted

def negation (value : Value) : Instruction := { opcode := .not, arguments := [value, value] }

def stage (item : Item) : Lower Staged := do
  if item.isThis then return { value := .reference "self" }
  match item.content with
  | .literal value => return { value }
  | .held v => return { value := v.value }
  | .method name => return { value := .reference name }
  | .member source field => do
    let v ← temporary field.type
    return { code := [.structGet v.name source.value field.name], value := v.value }
  | .comparison opcode lhs rhs => do
    let made ← materialize opcode lhs rhs
    let inverted ← takeInverted
    return { made with code := if inverted then made.code ++ [negation made.value] else made.code }

def stageAll : List Item → Lower (List Instruction × List Value)
  | [] => return ([], [])
  | item :: items => do
    let first ← stage item
    let (code, values) ← stageAll items
    return (first.code ++ code, first.value :: values)

def stagePair (a b : Item) : Lower (List Instruction × Value × Value) := do
  let first ← stage a
  let second ← stage b
  return (first.code ++ second.code, first.value, second.value)

def assign (f : Frame) (v : Variable) (item : Item) : Lower (List Instruction) := do
  let staged ← stage item
  return staged.code ++ [.assign v.name (f.coerce v.type staged.value)]

def assignAll (f : Frame) : List Variable → List Item → Lower (List Instruction)
  | v :: vs, item :: items => do
    let first ← assign f v item
    let code ← assignAll f vs items
    return first ++ code
  | _, _ => return []

def joined (slots : List Variable) : Stack := (slots.map Item.ofVariable).reverse

/-- The variables for items that flow to an offset. The first flow declares them. There are none if
an earlier flow had another number of items. -/
def joinVariables (offset : UInt32) (items : List Item) : Lower (Option (List Variable)) := do
  match (← get).joins.lookup offset with
  | some slots =>
    if slots.length = items.length then return some slots
    else
      warn (toString items.length ++ " stack items flow into IL_" ++
        Text.hexPadded 4 offset.toNat ++ ", which expects " ++ toString slots.length)
      return none
  | none => do
    let slots ← freshVariables (items.map Item.type)
    modify fun s => { s with joins := (offset, slots) :: s.joins }
    return some slots

/-- Moves all stack items to the variables of an offset. With `keep` the stack goes on with these
variables, and otherwise it is empty afterwards. -/
def spill (f : Frame) (offset : UInt32) (keep : Bool) : Lower (List Instruction) := do
  let items := (← get).stack.reverse
  if items.isEmpty then return []
  match ← joinVariables offset items with
  | none => return []
  | some slots => do
    modify fun s => { s with stack := [] }
    let code ← assignAll f slots items
    if keep then modify fun s => { s with stack := joined slots }
    return code

def enter (f : Frame) (offset : UInt32) : Lower (List Instruction) := do
  let s ← get
  match s.joins.lookup offset with
  | none => return []
  | some slots =>
    if s.stack.isEmpty then
      set { s with stack := joined slots }
      return []
    else spill f offset true

end PapyrusBackend.Lowering.Lower
