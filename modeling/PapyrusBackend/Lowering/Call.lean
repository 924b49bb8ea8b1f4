import PapyrusBackend.Lowering.Memory

namespace PapyrusBackend.Lowering

open Source

inductive Location where
  | self
  | type (name : String)
  | object (value : Value)
  deriving DecidableEq, Inhabited

def Location.value : Location → Value
  | self => .reference "self"
  | type name => .reference name
  | object value => value

namespace Lower

/-- Joins `first` with further values from left to right. The last result goes to the destination,
those before it to fresh variables. -/
def joinTexts (destination : Value) (first : Value) : List Value → Lower (List Instruction)
  | [] => return []
  | [last] => return [{ opcode := .strcat, arguments := [destination, first, last] }]
  | second :: rest => do
    let v ← temporary "String"
    let code ← joinTexts destination v.value rest
    return { opcode := .strcat, arguments := [v.value, first, second] } :: code

def concat (f : Frame) (items : List Item) : Lower (List Instruction) := do
  let d ← destination f "String"
  let (code, values) ← stageAll items
  let joined ← match values.map (f.coerce "String") with
    | [] => pure [.assign d.written.name (.string "")]
    | [only] => pure [.assign d.written.name only]
    | first :: rest => joinTexts d.value first rest
  let rest ← finish d
  return code ++ joined ++ rest

/-- The name of the property that an accessor reads or writes. Accessors of the type that is being
built must belong to one of its properties. -/
def propertyName (f : Frame) (callee : MethodRef) (location : Location) : Lower String :=
  let name := Naming.accessed callee.name
  if location = .self && f.owner.isNamedBy callee.owner then
    match (f.target.property? callee.name).or (f.target.property? name) with
    | some p => return p.name
    | none => throw (.invalidProperty f.method.name callee.name)
  else return name

def readProperty (f : Frame) (callee : MethodRef) (name : String) (location : Location) :
    Lower (List Instruction) :=
  produce f (Naming.typeName callee.returns) [] fun d =>
    { opcode := .propGet, arguments := [.reference name, location.value, d] }

def writeProperty (f : Frame) (callee : MethodRef) (name : String) (location : Location)
    (items : List Item) : Lower (List Instruction) := do
  match items with
  | [] =>
    throw (.unsupported (f.method.name ++ ": setter " ++ callee.name ++ " called without a value"))
  | item :: _ => do
    let staged ← stage item
    let value := match callee.parameters with
      | p :: _ => f.coerce (Naming.typeName p.type) staged.value
      | [] => staged.value
    return staged.code ++
      [{ opcode := .propSet, arguments := [.reference name, location.value, value] }]

def property (f : Frame) (callee : MethodRef) (items : List Item) (location : Location) :
    Lower (List Instruction) := do
  match Naming.accessor? callee.name with
  | none => throw (.unsupported (callee.name ++ " is not an accessor"))
  | some accessor => do
    let name ← propertyName f callee location
    match accessor with
    | .get => readProperty f callee name location
    | .set => writeProperty f callee name location items

/-- Where a call goes: the code that finds the object, the location, and the delegate that is
called, if one is. -/
structure Receiver where
  code : List Instruction := []
  location : Location
  delegate : Option Variable := none

def instanceReceiver (f : Frame) (i : Instr) (count : Nat) : Lower Receiver := do
  let s ← get
  match s.stack with
  | [] => underflow f i (count + 1)
  | item :: stack => do
    set { s with stack }
    if item.delegate?.isSome then return { location := .self, delegate := item.delegate? }
    else if item.isThis then return { location := .self }
    else
      let staged ← stage item
      return { code := staged.code, location := .object staged.value }

def staticLocation (callee : MethodRef) : String :=
  if callee.owner.name.isEmpty then Naming.location callee.qualifiedName
  else Naming.typeName callee.owner

/-- The receiver of a call without an object of its own. The object whose method runs may still lie
below the arguments. -/
def plainReceiver (f : Frame) (callee : MethodRef) (declaration : Option MethodDecl) :
    Lower Receiver := do
  if declaration.isNone then
    warn (f.method.name ++ ": unresolved callee " ++ callee.qualifiedName)
  let s ← get
  let mayHaveThis := match declaration with
    | some d => !d.isStatic
    | none => true
  let this := match s.stack with
    | item :: _ => mayHaveThis && item.isThis
    | [] => false
  if this then
    set { s with stack := s.stack.drop 1 }
    return { location := .self }
  else
    let isStatic := match declaration with
      | some d => d.isStatic
      | none => Naming.isStaticByName callee.qualifiedName
    return { location := if isStatic then .type (staticLocation callee) else .self }

/-- A literal for a parameter of a value type takes the type of the parameter. -/
def coerceArgument (f : Frame) (p : Parameter) (v : Value) : Value :=
  let type := Naming.typeName p.type
  if p.type.isValue && v.kind ≠ .reference && v.kind.typeName ≠ type then f.coerce type v else v

def coerceArguments (f : Frame) : List Parameter → List Value → List Value
  | p :: ps, v :: vs => coerceArgument f p v :: coerceArguments f ps vs
  | _, vs => vs

/-- The method that a call means. A delegate that is not known to be bound means the method that was
last loaded. -/
def calledName (f : Frame) (callee : MethodRef) (delegate : Option Variable) : String :=
  match delegate with
  | none => callee.name
  | some v =>
    match v.invoke with
    | some name => name
    | none => f.lastLoaded?.getD v.name

def callInstruction (location : Location) (name : String) (arguments : List Value) (d : Value) :
    Instruction :=
  match location with
  | .type _ =>
    { opcode := .callStatic, arguments := [location.value, .reference name, d]
      variadic := arguments }
  | _ =>
    { opcode := .callMethod, arguments := [.reference name, location.value, d]
      variadic := arguments }

def plainCall (f : Frame) (callee : MethodRef) (items : List Item) (receiver : Receiver) :
    Lower (List Instruction) := do
  let (code, values) ← stageAll items
  let arguments := coerceArguments f callee.parameters values
  let name := calledName f callee receiver.delegate
  produce f (Naming.typeName callee.returns) code
    (callInstruction receiver.location name arguments)

def isConcatenation (callee : MethodRef) : Bool := Text.contains "concat" callee.name.toLower

/-- The code of a call once its receiver is known. Constructor calls have none. -/
def callBody (f : Frame) (callee : MethodRef) (declaration : Option MethodDecl) (items : List Item)
    (receiver : Receiver) : Lower (List Instruction) :=
  if callee.isConstructorName || declaration.any MethodDecl.isConstructor then return []
  else if isConcatenation callee then concat f items
  else if callee.name == "op_Equality" then equality f items false
  else if callee.name == "op_Inequality" then equality f items true
  else if (Naming.accessor? callee.name).isSome then property f callee items receiver.location
  else plainCall f callee items receiver

def call (f : Frame) (i : Instr) : Lower (List Instruction) := do
  let callee ← need i.method? "call without method"
  let count := i.pop.count callee.parameters.length (← get).stack.length
  let items ← popMany f i count
  let declaration := (f.program.method? callee).map Prod.snd
  let receiver ←
    if callee.convention = .thisCall || callee.hasThis then instanceReceiver f i count
    else plainReceiver f callee declaration
  let code ← callBody f callee declaration items receiver
  return receiver.code ++ code

def step (f : Frame) (i : Instr) : Lower (List Instruction) :=
  match i.code.category with
  | .nop => return []
  | .load => load f i
  | .store => store f i
  | .call => call f i
  | .branch => branch f i
  | .conditional => conditional f i
  | .ret => giveBack f i
  | .arithmetic => arithmetic f i
  | .stack => shuffle f i

end Lower

end PapyrusBackend.Lowering
