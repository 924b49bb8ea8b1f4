import PapyrusBackend.Assembly
import PapyrusBackend.Container.Reading

namespace PapyrusBackend.Container

namespace Read

def value : Read Value := do
  let start ← position
  let byte ← u8
  match Kind.ofByte? byte with
  | none => throw (.unknownKind byte start)
  | some .none => return .none
  | some .reference => return .reference (← indexedText)
  | some .string => return .string (← indexedText)
  | some .int => return .int (← i32)
  | some .float => return .float (← single)
  | some .bool => return .bool ((← u8) ≠ 0)

/-- The arguments of a call behind the fixed ones. Their number is itself an operand. -/
def variadic : Read (List Value) := do
  let start ← position
  match ← value with
  | .int n => times n.toInt.toNat value
  | other => throw (.unknownKind other.kind.toByte start)

def instruction : Read Instruction := do
  let start ← position
  let byte ← u8
  match Opcode.ofByte? byte with
  | none => throw (.unknownOpcode byte start)
  | some opcode => do
    let arguments ← times opcode.arity value
    let variadic ← if opcode.variadic then variadic else pure []
    return { opcode, arguments, variadic }

def typedName : Read TypedName := return ⟨← indexedText, ← indexedText⟩

/-- The position that a jump at offset `k` leads to, if it stays in a body of `length`
instructions. -/
def landing? (length k : Nat) (i : Instruction) : Option Target :=
  match i.delta? with
  | none => none
  | some delta =>
    let target : Int := k + delta.toInt
    if 0 ≤ target ∧ target ≤ length then some (.position target.toNat) else none

def place (owner : String) (code : List Instruction) : List Instruction :=
  let length := code.length
  code.mapIdx fun k i => { i with target := landing? length k i, offset := k, method := owner }

def method (name : String) : Read Method := do
  let returns ← indexedText
  let documentation ← indexedText
  let userFlags ← u32
  let flags ← u8
  let parameters ← counted typedName
  let locals ← counted typedName
  let code ← counted instruction
  let body : Body := { owner := name, «variables» := locals, instructions := place name code }
  return { name, returns, documentation, userFlags, flags, parameters, body }

def namedMethod : Read Method := do
  let name ← indexedText
  method name

def field (generation : Generation) : Read Field := do
  let name ← indexedText
  let type ← indexedText
  let userFlags ← u32
  let value ← value
  let flags ← if generation.isLater then u8 else pure 0
  return { name, type, userFlags, value, flags }

def structField (generation : Generation) : Read Field := do
  let f ← field generation
  let documentation ← indexedText
  return { f with documentation }

def optionalMethod (present : Bool) (name : String) : Read (Option Method) :=
  if present then return some (← method name) else pure none

def accessors (name : String) (flags : UInt8) : Read Accessors := do
  if flags &&& Property.autoFlag ≠ 0 then
    return .auto (← indexedText)
  else
    let getter ← optionalMethod (flags &&& Property.readFlag ≠ 0) (Property.getterName name)
    let setter ← optionalMethod (flags &&& Property.writeFlag ≠ 0) (Property.setterName name)
    return .explicit getter setter

def property : Read Property := do
  let name ← indexedText
  let type ← indexedText
  let documentation ← indexedText
  let userFlags ← u32
  let flags ← u8
  let accessors ← accessors name flags
  return { name, type, documentation, userFlags, flags, accessors }

def struct (generation : Generation) : Read Struct := do
  let name ← indexedText
  let fields ← counted (structField generation)
  return { name, fields }

def state : Read State := do
  let name ← indexedText
  let methods ← counted namedMethod
  return { name, methods }

def objectType (generation : Generation) : Read ObjectType := do
  let name ← indexedText
  let _ ← u32
  let base ← indexedText
  let documentation ← indexedText
  let flags ← if generation.isLater then u8 else pure 0
  let userFlags ← u32
  let autoState ← indexedText
  let structs ← if generation.isLater then counted (struct generation) else pure []
  let fields ← counted (field generation)
  let properties ← counted property
  let states ← counted state
  return { name, base, documentation, flags, userFlags, autoState, structs, fields, properties,
           states }

def methodLines : Read MethodLines := do
  let type ← indexedText
  let state ← indexedText
  let name ← indexedText
  let role ← u8
  let lines ← counted u16
  return { type, state, name, role := Role.ofByte role, lines }

def propertyGroup : Read PropertyGroup := do
  let object ← indexedText
  let name ← indexedText
  let documentation ← indexedText
  let userFlags ← u32
  let properties ← counted indexedText
  return { object, name, documentation, userFlags, properties }

def structOrder : Read StructOrder := do
  let type ← indexedText
  let name ← indexedText
  let fields ← counted indexedText
  return { type, name, fields }

def debugInfo (generation : Generation) : Read DebugInfo := do
  let time ← u64
  let methods ← counted methodLines
  let groups ← if generation.isLater then counted propertyGroup else pure []
  let structs ← if generation.isLater then counted structOrder else pure []
  return { time, methods, groups, structs }

def userFlag : Read UserFlag := do
  let name ← indexedText
  let index ← u8
  return { name, index }

def header : Read Header := do
  let identifier ← u32
  let major ← u8
  let minor ← u8
  let gameId ← u16
  let compileTime ← u64
  let source ← inlineText
  let user ← inlineText
  let computer ← inlineText
  return { identifier, major, minor, gameId, compileTime, source, user, computer }

def stringTable : Read StringTable := return .ofList (← counted inlineText)

def assembly (generation : Generation) : Read Assembly := do
  let header ← header
  let table ← stringTable
  modify fun r => { r with table }
  let present ← u8
  let debug ← if present ≠ 0 then some <$> debugInfo generation else pure none
  let userFlags ← counted userFlag
  let types ← counted (objectType generation)
  return { generation, header, debug, userFlags, types, corrupted := (← get).corrupted }

end Read

def detect (data : List UInt8) : Except Fault Generation :=
  let found := data.take 4
  if found = toBytes .big 4 magic.toNat then .ok .skyrim
  else if found = toBytes .little 4 magic.toNat then .ok .fallout4
  else if found.length < 4 then .error (.endOfData 0 4 found.length)
  else .error (.badMagic found)

structure DecodeOptions where
  expected : Option Generation := none
  policy : Policy := .lenient

def checkGeneration (expected : Option Generation) (found : Generation) : Except Fault Unit :=
  match expected with
  | none => .ok ()
  | some expected =>
    if expected = found then .ok () else .error (.wrongGeneration expected.title found.title)

def decode (options : DecodeOptions) (data : List UInt8) : Except Fault Assembly := do
  let generation ← detect data
  checkGeneration options.expected generation
  match Read.assembly generation
      { rest := data, order := generation.order, policy := options.policy } with
  | .ok a _ => .ok a
  | .error fault _ => .error fault

end PapyrusBackend.Container
