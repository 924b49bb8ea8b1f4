import PapyrusBackend.Container.Decode
import PapyrusBackend.Container.Encode

namespace PapyrusBackend.Container

theorem Write.instruction_eq (i : Instruction) (h : i.hasValidArity = true) :
    instruction i = (do
      u8 i.opcode.toByte
      each value i.arguments
      (if i.opcode.variadic then do
        value (.int (Int32.ofNat i.variadic.length))
        each value i.variadic
      else pure ())) := by
  simp only [instruction, if_pos h]

theorem Write.instruction_fails (i : Instruction) (h : ¬i.hasValidArity = true) (o : Output) :
    instruction i o = .error (.wrongArity i.opcode.mnemonic i.opcode.arity
      (i.arguments.length + i.variadic.length)) o := by
  simp only [instruction, if_neg h]
  rfl

theorem Read.field_eq (generation : Generation) :
    field generation = (do
      let name ← indexedText
      let type ← indexedText
      let userFlags ← u32
      let value ← value
      let flags ← (if generation.isLater then u8 else pure 0)
      return { name, type, userFlags, value, flags }) := by
  cases generation <;> rfl

theorem Read.accessors_auto {flags : UInt8} (h : flags &&& Property.autoFlag ≠ 0) (name : String) :
    accessors name flags = (do return .auto (← indexedText)) := if_pos h

theorem Read.accessors_explicit {flags : UInt8} (h : flags &&& Property.autoFlag = 0)
    (name : String) :
    accessors name flags = (do
      let getter ← optionalMethod (flags &&& Property.readFlag ≠ 0) (Property.getterName name)
      let setter ← optionalMethod (flags &&& Property.writeFlag ≠ 0) (Property.setterName name)
      return .explicit getter setter) := if_neg (not_not_intro h)

def Write.accessors : Accessors → Write Unit
  | .auto backing => text backing
  | .explicit getter setter => do
    optionalMethod getter
    optionalMethod setter

theorem Write.property_eq (p : Property) :
    property p = (do
      text p.name
      text p.type
      text p.documentation
      u32 p.userFlags
      u8 p.storedFlags
      accessors p.accessors) := by
  rw [property]
  cases p.accessors <;> rfl

theorem Write.typeContent_eq (generation : Generation) (t : ObjectType) :
    typeContent generation t = (do
      text t.base
      text t.documentation
      (if generation.isLater then u8 t.flags else pure ())
      u32 t.userFlags
      text t.autoState
      (if generation.isLater then counted "structs" (struct generation) t.structs else pure ())
      counted "fields" (field generation) t.fields
      counted "properties" property t.properties
      counted "states" state t.states) := by
  cases generation <;> rfl

theorem Read.objectType_eq (generation : Generation) :
    objectType generation = (do
      let name ← indexedText
      let _ ← u32
      let base ← indexedText
      let documentation ← indexedText
      let flags ← (if generation.isLater then u8 else pure 0)
      let userFlags ← u32
      let autoState ← indexedText
      let structs ← (if generation.isLater then counted (struct generation) else pure [])
      let fields ← counted (field generation)
      let properties ← counted property
      let states ← counted state
      return { name, base, documentation, flags, userFlags, autoState, structs, fields,
               properties, states }) := by
  cases generation <;> rfl

theorem Write.debugInfo_eq (generation : Generation) (d : DebugInfo) :
    debugInfo generation d = (do
      u64 d.time
      counted "method descriptions" methodLines d.methods
      (if generation.isLater then counted "property groups" propertyGroup d.groups else pure ())
      (if generation.isLater then counted "struct descriptions" structOrder d.structs
        else pure ())) := by
  cases generation <;> rfl

theorem Read.debugInfo_eq (generation : Generation) :
    debugInfo generation = (do
      let time ← u64
      let methods ← counted methodLines
      let groups ← (if generation.isLater then counted propertyGroup else pure [])
      let structs ← (if generation.isLater then counted structOrder else pure [])
      return { time, methods, groups, structs }) := by
  cases generation <;> rfl

def Write.debugSection (generation : Generation) : Option DebugInfo → Write Unit
  | none => u8 0
  | some d => do
    u8 1
    debugInfo generation d

theorem Write.content_eq (generation : Generation) (a : Assembly) :
    content generation a = (do
      debugSection generation a.debug
      counted "user flags" userFlag a.userFlags
      counted "types" (objectType generation) a.types) := by
  rw [content]
  cases a.debug with
  | none => rfl
  | some d => exact (bind_assoc _ _ _).symm

def Read.debugSection (generation : Generation) : Read (Option DebugInfo) := do
  let present ← u8
  (if present ≠ 0 then some <$> debugInfo generation else pure none)

def Read.content (generation : Generation) :
    Read (Option DebugInfo × List UserFlag × List ObjectType) := do
  let debug ← debugSection generation
  let userFlags ← counted userFlag
  let types ← counted (objectType generation)
  return (debug, userFlags, types)

theorem Read.assembly_eq (generation : Generation) :
    assembly generation = (do
      let header ← header
      let table ← stringTable
      modify fun r => { r with table }
      let (debug, userFlags, types) ← content generation
      return { generation, header, debug, userFlags, types, corrupted := (← get).corrupted }) := by
  simp only [assembly, content, debugSection, bind_assoc, pure_bind]
  congr 1
  funext header
  congr 1
  funext table
  congr 1
  funext _
  congr 1
  funext present
  split <;> rfl

end PapyrusBackend.Container
