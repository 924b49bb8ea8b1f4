import PapyrusBackend.Lowering.Operators

namespace PapyrusBackend.Lowering.Lower

open Source

def literalOf : Operand → Value
  | .int i => .int i
  | .float x => .float x.toSingle
  | .string s => .string s
  | _ => .none

/-- A field of the object on the stack. Members of structs are only read when they are used. -/
def loadField (f : Frame) (i : Instr) : Lower (List Instruction) := do
  let field ← need i.field? "ldfld without field"
  let holder ← popOperand f i
  let type := Naming.typeName field.type
  if Naming.isStruct holder.type then
    match holder.content with
    | .held source => do
      push { content := .member source { name := field.name, type }, type }
      return []
    | other =>
      throw (.unsupported ("struct member " ++ field.name ++ " read from " ++ other.describe))
  else
    push (.ofVariable (← fieldVariable field))
    return []

def loadElement (f : Frame) (i : Instr) : Lower (List Instruction) := do
  let (array, index) ← popPair f i
  let type := (Text.withoutEnding? "[]" array.type).getD ""
  let (code, array, index) ← stagePair array index
  produce f type code fun d => { opcode := .arrayGet, arguments := [d, array, index] }

def loadLength (f : Frame) (i : Instr) : Lower (List Instruction) := do
  let array ← stage (← popOperand f i)
  produce f "Int" array.code fun d => { opcode := .arrayLength, arguments := [d, array.value] }

def newArray (f : Frame) (i : Instr) : Lower (List Instruction) := do
  let element ← need i.type? "newarr without element type"
  let size ← stage (← popOperand f i)
  produce f (Naming.typeName element ++ "[]") size.code fun d =>
    { opcode := .arrayCreate, arguments := [d, size.value] }

def loadedMethod? (items : List Item) : Option String :=
  items.findSome? fun item =>
    match item.content with
    | .method name => some name
    | _ => none

/-- A new object. Delegates are variables bound to a method, nested value types are structs, and
there is nothing that other objects could be in a script. -/
def newObject (f : Frame) (i : Instr) : Lower (List Instruction) := do
  let ctor ← need i.method? "newobj without constructor"
  let items ← popMany f i (i.pop.count ctor.parameters.length (← get).stack.length)
  let type := Naming.typeName ctor.owner
  let nothing : Lower (List Instruction) := do
    push { content := .literal .none, type }
    return []
  if ctor.owner.isDelegate then
    let invoke := loadedMethod? items
    push (.ofVariable { name := invoke.getD "", type, isDelegate := true, invoke })
    return []
  else if Naming.isStruct type then
    if f.generation.isLater then
      produce f type [] fun d => { opcode := .structCreate, arguments := [d] }
    else
      warn (type ++ " has no struct support on " ++ f.generation.title)
      nothing
  else nothing

def load (f : Frame) (i : Instr) : Lower (List Instruction) := do
  match i.code with
  | .ldarg => do
    let index ← need i.index? "ldarg without index"
    push (← argument f index)
    return []
  | .ldloc => do
    let index ← need i.index? "ldloc without index"
    push (.ofVariable (← getLocal f index))
    return []
  | .ldcI4 | .ldcR4 | .ldcR8 | .ldstr | .ldnull => do
    push (.ofValue (literalOf i.operand))
    return []
  | .ldfld | .ldflda => loadField f i
  | .ldsfld => do
    let field ← need i.field? "ldsfld without field"
    push (.ofVariable (← fieldVariable field))
    return []
  | .ldftn => do
    let method ← need i.method? "ldftn without method"
    push { content := .method method.name, type := "" }
    return []
  | .ldelem => loadElement f i
  | .ldlen => loadLength f i
  | .newarr => newArray f i
  | .newobj => newObject f i
  | _ => misrouted i "load"

/-- A delegate that is stored in a local only binds it. -/
def storeLocal (f : Frame) (i : Instr) : Lower (List Instruction) := do
  let index ← need i.index? "stloc without index"
  let item ← popOperand f i
  match item.delegate? with
  | some delegate => do
    let _ ← bindLocal f index delegate.invoke
    return []
  | none => do
    let v ← getLocal f index
    if v.isDelegate then return [] else assign f v item

def storeArgument (f : Frame) (i : Instr) : Lower (List Instruction) := do
  let index ← need i.index? "starg without index"
  let item ← popOperand f i
  let v ← parameter f index
  assign f v item

def storeIn (f : Frame) (field : FieldRef) (item : Item) : Lower (List Instruction) := do
  match item.delegate? with
  | some delegate => do
    bindField field delegate.invoke
    return []
  | none => do
    let v ← fieldVariable field
    assign f v item

def storeMember (f : Frame) (field : FieldRef) (holder item : Item) : Lower (List Instruction) := do
  let (code, holder, value) ← stagePair holder item
  let value := f.coerce (Naming.typeName field.type) value
  return code ++ [.structSet holder field.name value]

def storeField (f : Frame) (i : Instr) : Lower (List Instruction) := do
  let field ← need i.field? "stfld without field"
  let (holder, item) ← popPair f i
  if item.delegate?.isNone && Naming.isStruct holder.type then storeMember f field holder item
  else storeIn f field item

def heldIndex (generation : Generation) (index : Value) : Value :=
  match index, generation.indexCeiling with
  | .int i, some ceiling => .int (if ceiling < i then ceiling else i)
  | index, _ => index

def storeElement (f : Frame) (i : Instr) : Lower (List Instruction) := do
  let (array, index, item) ← popTriple f i
  let array ← stage array
  let index ← stage index
  let item ← stage item
  return array.code ++ index.code ++ item.code ++
    [{ opcode := .arraySet
       arguments := [array.value, heldIndex f.generation index.value, item.value] }]

def store (f : Frame) (i : Instr) : Lower (List Instruction) := do
  match i.code with
  | .stloc => storeLocal f i
  | .starg => storeArgument f i
  | .stsfld => do
    let field ← need i.field? "stsfld without field"
    storeIn f field (← popOperand f i)
  | .stfld => storeField f i
  | .stelem => storeElement f i
  | _ => misrouted i "store"

end PapyrusBackend.Lowering.Lower
