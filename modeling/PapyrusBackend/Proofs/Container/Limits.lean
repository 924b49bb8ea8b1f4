import Mathlib.Tactic.MkIffOfInductiveProp
import PapyrusBackend.Assembly
import PapyrusBackend.Proofs.Container.Interning

namespace PapyrusBackend

def Countable (xs : List α) : Prop := xs.length < 65536

def Writable (s : String) : Prop := s.toUTF8.data.toList.length < 65536

def Value.texts : Value → List String
  | reference name => [name]
  | string text => [text]
  | _ => []

def Instruction.texts (i : Instruction) : List String :=
  i.arguments.flatMap Value.texts ++ i.variadic.flatMap Value.texts

def TypedName.texts (v : TypedName) : List String := [v.name, v.type]

/-- The texts of a method without its name, which accessors do not store. -/
def Method.texts (m : Method) : List String :=
  [m.returns, m.documentation] ++ (m.parameters.flatMap TypedName.texts ++
    (m.body.variables.flatMap TypedName.texts ++ m.body.instructions.flatMap Instruction.texts))

def Field.texts (f : Field) : List String := [f.name, f.type] ++ f.value.texts

def Field.memberTexts (f : Field) : List String := f.texts ++ [f.documentation]

def Accessors.texts : Accessors → List String
  | auto backing => [backing]
  | explicit getter setter =>
    getter.toList.flatMap Method.texts ++ setter.toList.flatMap Method.texts

def Property.texts (p : Property) : List String :=
  [p.name, p.type, p.documentation] ++ p.accessors.texts

def State.texts (s : State) : List String :=
  [s.name] ++ s.methods.flatMap fun m => [m.name] ++ m.texts

def Struct.texts (s : Struct) : List String := [s.name] ++ s.fields.flatMap Field.memberTexts

def ObjectType.texts (generation : Generation) (t : ObjectType) : List String :=
  [t.name, t.base, t.documentation, t.autoState] ++
    ((if generation.isLater then t.structs.flatMap Struct.texts else []) ++
      (t.fields.flatMap Field.texts ++
        (t.properties.flatMap Property.texts ++ t.states.flatMap State.texts)))

def MethodLines.texts (m : MethodLines) : List String := [m.type, m.state, m.name]

def PropertyGroup.texts (g : PropertyGroup) : List String :=
  [g.object, g.name, g.documentation] ++ g.properties

def StructOrder.texts (s : StructOrder) : List String := [s.type, s.name] ++ s.fields

def DebugInfo.texts (generation : Generation) (d : DebugInfo) : List String :=
  d.methods.flatMap MethodLines.texts ++
    (if generation.isLater then
      d.groups.flatMap PropertyGroup.texts ++ d.structs.flatMap StructOrder.texts
    else [])

def UserFlag.texts (f : UserFlag) : List String := [f.name]

def Assembly.texts (a : Assembly) : List String :=
  a.debug.toList.flatMap (DebugInfo.texts a.generation) ++
    (a.userFlags.flatMap UserFlag.texts ++ a.types.flatMap (ObjectType.texts a.generation))

def Instruction.Fits (i : Instruction) : Prop := i.hasValidArity = true

@[mk_iff]
structure Method.Fits (m : Method) : Prop where
  parameters : Countable m.parameters
  locals : Countable m.body.variables
  instructions : Countable m.body.instructions
  arity : ∀ i ∈ m.body.instructions, i.Fits

def Property.Fits (p : Property) : Prop := ∀ m ∈ p.methods, m.Fits

@[mk_iff]
structure State.Fits (s : State) : Prop where
  methods : Countable s.methods
  each : ∀ m ∈ s.methods, m.Fits

def Struct.Fits (s : Struct) : Prop := Countable s.fields

@[mk_iff]
structure ObjectType.Fits (generation : Generation) (t : ObjectType) : Prop where
  structs : generation.isLater = true → Countable t.structs ∧ ∀ s ∈ t.structs, s.Fits
  fields : Countable t.fields
  properties : Countable t.properties ∧ ∀ p ∈ t.properties, p.Fits
  states : Countable t.states ∧ ∀ s ∈ t.states, s.Fits

def MethodLines.Fits (m : MethodLines) : Prop := Countable m.lines

def PropertyGroup.Fits (g : PropertyGroup) : Prop := Countable g.properties

def StructOrder.Fits (s : StructOrder) : Prop := Countable s.fields

@[mk_iff]
structure DebugInfo.Fits (generation : Generation) (d : DebugInfo) : Prop where
  methods : Countable d.methods ∧ ∀ m ∈ d.methods, m.Fits
  groups : generation.isLater = true → Countable d.groups ∧ ∀ g ∈ d.groups, g.Fits
  structs : generation.isLater = true → Countable d.structs ∧ ∀ s ∈ d.structs, s.Fits

@[mk_iff]
structure Assembly.Fits (a : Assembly) : Prop where
  debug : ∀ d ∈ a.debug, d.Fits a.generation
  userFlags : Countable a.userFlags
  types : Countable a.types ∧ ∀ t ∈ a.types, t.Fits a.generation

@[mk_iff]
structure Header.Fits (h : Header) : Prop where
  source : Writable h.source
  user : Writable h.user
  computer : Writable h.computer

/-- The limits of the format, among them those on the table of all distinct texts. -/
@[mk_iff]
structure Assembly.Encodable (a : Assembly) : Prop where
  fits : a.Fits
  header : a.header.Fits
  table : Countable (extend [] a.texts)
  texts : ∀ s ∈ a.texts, Writable s

instance (xs : List α) : Decidable (Countable xs) := inferInstanceAs (Decidable (_ < _))

instance (s : String) : Decidable (Writable s) := inferInstanceAs (Decidable (_ < _))

instance (i : Instruction) : Decidable i.Fits := inferInstanceAs (Decidable (_ = _))

instance (m : Method) : Decidable m.Fits := decidable_of_iff _ (Method.fits_iff m).symm

instance (p : Property) : Decidable p.Fits := inferInstanceAs (Decidable (∀ m ∈ p.methods, m.Fits))

instance (s : State) : Decidable s.Fits := decidable_of_iff _ (State.fits_iff s).symm

instance (s : Struct) : Decidable s.Fits := inferInstanceAs (Decidable (Countable s.fields))

instance (generation : Generation) (t : ObjectType) : Decidable (t.Fits generation) :=
  decidable_of_iff _ (ObjectType.fits_iff generation t).symm

instance (m : MethodLines) : Decidable m.Fits := inferInstanceAs (Decidable (Countable m.lines))

instance (g : PropertyGroup) : Decidable g.Fits :=
  inferInstanceAs (Decidable (Countable g.properties))

instance (s : StructOrder) : Decidable s.Fits := inferInstanceAs (Decidable (Countable s.fields))

instance (generation : Generation) (d : DebugInfo) : Decidable (d.Fits generation) :=
  decidable_of_iff _ (DebugInfo.fits_iff generation d).symm

instance (a : Assembly) : Decidable a.Fits := decidable_of_iff _ (Assembly.fits_iff a).symm

instance (h : Header) : Decidable h.Fits := decidable_of_iff _ (Header.fits_iff h).symm

instance (a : Assembly) : Decidable a.Encodable := decidable_of_iff _ (Assembly.encodable_iff a).symm

end PapyrusBackend
