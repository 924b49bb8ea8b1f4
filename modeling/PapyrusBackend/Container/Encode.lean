import PapyrusBackend.Assembly
import PapyrusBackend.Container.Writing

namespace PapyrusBackend.Container

namespace Write

def value (v : Value) : Write Unit := do
  u8 v.kind.toByte
  match v with
  | .none => return ()
  | .reference s => text s
  | .string s => text s
  | .int i => i32 i
  | .float x => single x
  | .bool b => u8 (if b then 1 else 0)

def instruction (i : Instruction) : Write Unit := do
  unless i.hasValidArity do
    throw (.wrongArity i.opcode.mnemonic i.opcode.arity (i.arguments.length + i.variadic.length))
  u8 i.opcode.toByte
  each value i.arguments
  if i.opcode.variadic then
    value (.int (Int32.ofNat i.variadic.length))
    each value i.variadic

def typedName (v : TypedName) : Write Unit := do
  text v.name
  text v.type

def method (m : Method) : Write Unit := do
  text m.returns
  text m.documentation
  u32 m.userFlags
  u8 m.flags
  counted "parameters" typedName m.parameters
  counted "variables" typedName m.body.variables
  counted "instructions" instruction m.body.instructions

def namedMethod (m : Method) : Write Unit := do
  text m.name
  method m

def field (generation : Generation) (f : Field) : Write Unit := do
  text f.name
  text f.type
  u32 f.userFlags
  value f.value
  if generation.isLater then u8 f.flags

def structField (generation : Generation) (f : Field) : Write Unit := do
  field generation f
  text f.documentation

def optionalMethod : Option Method → Write Unit
  | none => return ()
  | some m => method m

def property (p : Property) : Write Unit := do
  text p.name
  text p.type
  text p.documentation
  u32 p.userFlags
  u8 p.storedFlags
  match p.accessors with
  | .auto backing => text backing
  | .explicit getter setter => do
    optionalMethod getter
    optionalMethod setter

def struct (generation : Generation) (s : Struct) : Write Unit := do
  text s.name
  counted "struct members" (structField generation) s.fields

def state (s : State) : Write Unit := do
  text s.name
  counted "methods" namedMethod s.methods

/-- The part of a type that its size covers. -/
def typeContent (generation : Generation) (t : ObjectType) : Write Unit := do
  text t.base
  text t.documentation
  if generation.isLater then u8 t.flags
  u32 t.userFlags
  text t.autoState
  if generation.isLater then counted "structs" (struct generation) t.structs
  counted "fields" (field generation) t.fields
  counted "properties" property t.properties
  counted "states" state t.states

def objectType (generation : Generation) (t : ObjectType) : Write Unit := do
  text t.name
  framed (typeContent generation t)

def methodLines (m : MethodLines) : Write Unit := do
  text m.type
  text m.state
  text m.name
  u8 m.role.toByte
  counted "line numbers" u16 m.lines

def propertyGroup (g : PropertyGroup) : Write Unit := do
  text g.object
  text g.name
  text g.documentation
  u32 g.userFlags
  counted "names" text g.properties

def structOrder (s : StructOrder) : Write Unit := do
  text s.type
  text s.name
  counted "names" text s.fields

def debugInfo (generation : Generation) (d : DebugInfo) : Write Unit := do
  u64 d.time
  counted "method descriptions" methodLines d.methods
  if generation.isLater then
    counted "property groups" propertyGroup d.groups
    counted "struct descriptions" structOrder d.structs

def userFlag (f : UserFlag) : Write Unit := do
  text f.name
  u8 f.index

def content (generation : Generation) (a : Assembly) : Write Unit := do
  match a.debug with
  | none => u8 0
  | some d => do
    u8 1
    debugInfo generation d
  counted "user flags" userFlag a.userFlags
  counted "types" (objectType generation) a.types

def header (h : Header) : Write Unit := do
  u32 h.identifier
  u8 h.major
  u8 h.minor
  u16 h.gameId
  u64 h.compileTime
  inlineText h.source
  inlineText h.user
  inlineText h.computer

end Write

def encodeFor (generation : Generation) (a : Assembly) : Except Fault (List UInt8) :=
  match Write.content generation a { order := generation.order } with
  | .error fault _ => .error fault
  | .ok () body =>
    let front : Write Unit := do
      Write.header a.header
      Write.counted "strings" Write.inlineText body.table.toList
    match front { order := generation.order } with
    | .error fault _ => .error fault
    | .ok () front => .ok (front.bytes ++ body.bytes).toList

def encode (a : Assembly) : Except Fault (List UInt8) := encodeFor a.generation a

end PapyrusBackend.Container
