import PapyrusBackend.Lowering.Staging

namespace PapyrusBackend.Lowering

open Source

inductive Destination where
  | store (v : Variable)
  | push (v : Variable)
  /-- a fresh variable, to be copied to a member of a struct -/
  | member (v : Variable) (holder : Value) (field : String) (before : List Instruction)
  | discard (v : Variable)
  deriving DecidableEq, Inhabited

namespace Destination

def written : Destination → Variable
  | store v => v
  | push v => v
  | member v .. => v
  | discard v => v

def value (d : Destination) : Value := d.written.value

end Destination

namespace Lower

def pushTemporary (type : String) : Lower Destination := return .push (← temporary type)

def skipNext : Lower Unit := modify fun s => { s with skipNext := true }

def holderDestination (type : String) (field : FieldRef) : Lower Destination := do
  let s ← get
  match s.stack with
  | [] => pushTemporary type
  | holder :: stack => do
    set { s with stack, skipNext := true }
    if Naming.isStruct holder.type then
      let staged ← stage holder
      let v ← temporary type
      return .member v staged.value field.name staged.code
    else return .store (← fieldVariable field)

def followingDestination (f : Frame) (type : String) (next : Instr) : Lower Destination := do
  match next.code with
  | .stloc => do
    let index ← need next.index? "stloc without index"
    let v ← getLocal f index
    if v.isDelegate then pushTemporary type
    else
      skipNext
      return .store v
  | .starg => do
    let index ← need next.index? "starg without index"
    let v ← parameter f index
    skipNext
    return .store v
  | .stsfld =>
    match next.field? with
    | none => throw (.invalidSource "stsfld without field")
    | some field =>
      if field.type.isDelegate then pushTemporary type
      else
        skipNext
        return .store (← fieldVariable field)
  | .stfld =>
    match next.field? with
    | none => throw (.invalidSource "stfld without field")
    | some field =>
      if field.type.isDelegate then pushTemporary type else holderDestination type field
  | _ => pushTemporary type

def destination (f : Frame) (type : String) : Lower Destination := do
  if Text.sameName type "none" then return .discard (← declareNone)
  match f.next? with
  | none => pushTemporary type
  | some next =>
    if next.code.isStore && f.isBranchTarget next.offset then pushTemporary type
    else followingDestination f type next

def finish : Destination → Lower (List Instruction)
  | .push v => do
    push (.result v)
    return []
  | .member v holder field before => return before ++ [.structSet holder field v.value]
  | .store _ => return []
  | .discard _ => return []

def produce (f : Frame) (type : String) (code : List Instruction) (make : Value → Instruction) :
    Lower (List Instruction) := do
  let d ← destination f type
  let rest ← finish d
  return code ++ make d.value :: rest

end Lower

end PapyrusBackend.Lowering
