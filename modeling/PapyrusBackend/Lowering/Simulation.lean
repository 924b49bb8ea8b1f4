import PapyrusBackend.Coercion
import PapyrusBackend.Fault
import PapyrusBackend.Generation
import PapyrusBackend.Lowering.Item
import PapyrusBackend.Naming
import PapyrusBackend.ObjectType
import PapyrusBackend.Source.Declaration

namespace PapyrusBackend.Lowering

open Source

structure Frame where
  program : Source.Module
  owner : TypeDecl
  method : MethodDecl
  target : ObjectType
  generation : Generation
  coerce : String → Value → Value := Value.coerce
  position : Nat := 0

namespace Frame

def next? (f : Frame) : Option Instr := f.method.body[f.position + 1]?

def lastLoaded? (f : Frame) : Option String :=
  match (f.method.body.take f.position).reverse.find? fun i => i.code = .ldftn with
  | some i => i.method?.map MethodRef.name
  | none => none

def isBranchTarget (f : Frame) (offset : UInt32) : Bool :=
  f.method.body.any fun i => i.target? == some offset

def parameters (f : Frame) : List Variable :=
  f.method.parameters.map fun p => { name := p.name, type := Naming.typeName p.type }

end Frame

structure Simulation where
  stack : Stack := []
  /-- the next instruction has been taken care of -/
  skipNext : Bool := false
  /-- instructions before this offset have been taken care of -/
  skipTo : Option UInt32 := none
  /-- the pending comparison is to be read the other way round -/
  inverted : Bool := false
  «variables» : List TypedName := []
  warnings : List String := []
  locals : List Variable := []
  temporaries : Nat := 0
  delegates : Bindings := []
  /-- the variables that carry stack items to an offset -/
  joins : List (UInt32 × List Variable) := []
  deriving DecidableEq, Inhabited

def localVariables (m : MethodDecl) : List Variable :=
  m.locals.mapIdx fun k l =>
    { name := Naming.localName k l.name
      type := Naming.typeName l.type
      isDelegate := l.type.isDelegate }

/-- Delegate locals are followed but not declared. -/
def Simulation.start (m : MethodDecl) (delegates : Bindings) : Simulation :=
  let locals := localVariables m
  { locals, delegates
    «variables» := (locals.filter fun v => !v.isDelegate).map Variable.declaration }

abbrev Lower := EStateM Fault Simulation

namespace Lower

def warn (message : String) : Lower Unit :=
  modify fun s => { s with warnings := s.warnings ++ [message] }

def push (item : Item) : Lower Unit :=
  modify fun s => { s with stack := item :: s.stack }

def need (operand : Option α) (reason : String) : Lower α :=
  match operand with
  | some a => return a
  | none => throw (.invalidSource reason)

def underflow (f : Frame) (i : Instr) (needed : Nat) : Lower α := do
  throw (.stackUnderflow f.method.name i.offset needed (← get).stack.length)

def require (f : Frame) (i : Instr) (needed : Nat) : Lower Unit := do
  if (← get).stack.length < needed then underflow f i needed

def popMany (f : Frame) (i : Instr) (n : Nat) : Lower (List Item) := do
  let s ← get
  match s.stack.popMany? n with
  | some (items, stack) => do
    set { s with stack }
    return items
  | none => underflow f i n

def pop (f : Frame) (i : Instr) : Lower Item := do
  match ← popMany f i 1 with
  | [item] => return item
  | _ => underflow f i 1

/-- The operands of an instruction that takes `expected` of them, if its stack effect says so. -/
def popOperands (f : Frame) (i : Instr) (expected : Nat) : Lower (List Item) := do
  let count := i.pop.count expected (← get).stack.length
  if count = expected then popMany f i count
  else throw (.invalidSource (f.method.name ++ ": IL_" ++ Text.hexPadded 4 i.offset.toNat ++ " " ++
    i.code.title ++ " pops " ++ toString count ++ " items, expected " ++ toString expected))

def popOperand (f : Frame) (i : Instr) : Lower Item := do
  match ← popOperands f i 1 with
  | [item] => return item
  | _ => underflow f i 1

def popPair (f : Frame) (i : Instr) : Lower (Item × Item) := do
  match ← popOperands f i 2 with
  | [a, b] => return (a, b)
  | _ => underflow f i 2

def popTriple (f : Frame) (i : Instr) : Lower (Item × Item × Item) := do
  match ← popOperands f i 3 with
  | [a, b, c] => return (a, b, c)
  | _ => underflow f i 3

def getLocal (f : Frame) (index : UInt16) : Lower Variable := do
  match (← get).locals[index.toNat]? with
  | some v => return v
  | none =>
    throw (.invalidSource (f.method.name ++ ": no local " ++ toString index.toNat))

def bindLocal (f : Frame) (index : UInt16) (invoke : Option String) : Lower Variable := do
  let v ← getLocal f index
  let v := { v with isDelegate := true, invoke }
  modify fun s => { s with locals := s.locals.set index.toNat v }
  return v

/-- An argument. In instance methods the first one is the object itself. -/
def argument (f : Frame) (index : UInt16) : Lower Item :=
  let missing := Fault.invalidSource (f.method.name ++ ": no argument " ++ toString index.toNat)
  let parameter (k : Nat) : Lower Item :=
    match f.parameters[k]? with
    | some v => return .ofVariable v
    | none => throw missing
  if f.method.isStatic then parameter index.toNat
  else if index = 0 then return .this f.target.name
  else parameter (index.toNat - 1)

def parameter (f : Frame) (index : UInt16) : Lower Variable := do
  match (← argument f index).content with
  | .held v => return v
  | _ => throw (.invalidSource "argument is not a variable")

/-- The variable of a field. Delegate fields know the method they are bound to. -/
def fieldVariable (field : FieldRef) : Lower Variable := do
  let name := Naming.fieldName field.name
  let type := Naming.typeName field.type
  if field.type.isDelegate then
    return { name, type, isDelegate := true, invoke := (← get).delegates.lookup field.name }
  else return { name, type }

def bindField (field : FieldRef) (method : Option String) : Lower Unit :=
  modify fun s =>
    { s with delegates := match method with
        | some method => s.delegates.bind field.name method
        | none => s.delegates.unbind field.name }

def temporaryName (k : Nat) : String := "::temp" ++ toString k

def temporary (type : String) : Lower Variable := do
  let s ← get
  let v : Variable := { name := temporaryName s.temporaries, type }
  set { s with temporaries := s.temporaries + 1, «variables» := s.variables ++ [v.declaration] }
  return v

def freshVariables : List String → Lower (List Variable)
  | [] => return []
  | type :: types => do
    let v ← temporary type
    let vs ← freshVariables types
    return v :: vs

/-- The variable that takes what is not wanted. -/
def noneVariable : Variable := { name := "::nonevar", type := "None" }

def declareNone : Lower Variable := do
  modify fun s =>
    if s.variables.any fun v => v.name == noneVariable.name then s
    else { s with «variables» := s.variables ++ [noneVariable.declaration] }
  return noneVariable

end Lower

end PapyrusBackend.Lowering
