import PapyrusBackend.Assembly
import PapyrusBackend.Lowering.MethodCode

namespace PapyrusBackend.Lowering

open Source

structure Options where
  generation : Generation := .skyrim
  policy : Policy := .lenient
  debugInfo : Bool := true
  optimizeLabels : Bool := true
  emitListing : Bool := false
  sourceFile : String := ""
  user : String := ""
  computer : String := ""
  coerce : String → Value → Value := Value.coerce

def declareField (options : Options) (name : String) (f : FieldDecl) : Field :=
  let type := Naming.typeName f.type
  { name, type, value := match f.value with
      | some v => options.coerce type v
      | none => .none }

/-- Delegate fields have no place in a script. -/
def declareFields (options : Options) (fields : List FieldDecl) : List Field :=
  (fields.filter fun f => !f.type.isDelegate).map fun f =>
    declareField options (Naming.fieldName f.name) f

def declareStruct (options : Options) (t : TypeDecl) : Struct :=
  { name := t.name
    fields := t.fields.map fun f =>
      { declareField options f.name f with documentation := f.documentation } }

def nestedStructs (t : TypeDecl) : List TypeDecl := t.nested.filter TypeDecl.isValue

def declareProperty (p : PropertyDecl) : Property :=
  let type := Naming.typeName p.type
  let property := match p.backing with
    | some backing => Property.auto p.name type (Naming.fieldName backing)
    | none =>
      Property.explicit p.name type
        (p.getter.map fun name => { name, returns := type })
        (p.setter.map fun name => { name, returns := "None", parameters := [⟨"value", type⟩] })
  { property with documentation := p.documentation }

def baseName (base : Option TypeRef) : String :=
  match base with
  | none => ""
  | some base =>
    if base.name == "Object" || base.name == "ValueType" then "" else Naming.typeName base

def declareType (options : Options) (t : TypeDecl) : ObjectType :=
  { name := Naming.typeName t.reference
    base := baseName t.base
    documentation := t.documentation
    structs :=
      if options.generation.isLater then (nestedStructs t).map (declareStruct options) else []
    fields := declareFields options t.fields
    properties := t.properties.map declareProperty }

def Options.setting (options : Options) (program : Source.Module) (t : TypeDecl) : Setting :=
  { program
    owner := t
    target := declareType options t
    generation := options.generation
    coerce := options.coerce
    policy := options.policy
    optimizeLabels := options.optimizeLabels }

/-- Lowers methods in turn. Under the lenient policy a method that fails is left out with a
warning. -/
def lowerMethods (setting : Setting) :
    List MethodDecl → Except Fault (List LoweredMethod × List String)
  | [] => .ok ([], [])
  | m :: rest =>
    match lowerMethod setting m with
    | .ok lowered => do
      let (methods, warnings) ← lowerMethods setting rest
      return (lowered :: methods, warnings)
    | .error fault =>
      if setting.policy = .strict then .error fault
      else do
        let (methods, warnings) ← lowerMethods setting rest
        let warning := setting.owner.name ++ "." ++ m.name ++ " skipped: " ++ fault.message
        return (methods, warning :: warnings)

def fillSlot (p : Property) (accessor : Naming.Accessor) (m : Method) : Property :=
  match p.accessors, accessor with
  | .auto _, _ => p
  | .explicit _ setter, .get =>
    { p with accessors := .explicit (some (m.rename (Property.getterName p.name))) setter }
  | .explicit getter _, .set =>
    { p with accessors := .explicit getter (some (m.rename (Property.setterName p.name))) }

def updateProperty (f : Property → Property) (method : String) : List Property → List Property
  | [] => []
  | p :: rest => if p.hasAccessor method then f p :: rest else p :: updateProperty f method rest

def roleOf : Naming.Accessor → Role
  | .get => .getter
  | .set => .setter

def accessorOf? (t : ObjectType) (method : String) : Option (Property × Naming.Accessor) :=
  match Naming.accessor? method with
  | none => none
  | some accessor =>
    (t.properties.find? fun p => p.hasAccessor method).map fun p => (p, accessor)

/-- Gives a method its place. Accessors of properties over a field go nowhere. -/
def placeMethod (t : ObjectType) (m : LoweredMethod) : ObjectType × List MethodLines :=
  match accessorOf? t m.method.name with
  | some (p, accessor) =>
    if p.isAuto then (t, [])
    else
      let properties :=
        updateProperty (fun p => fillSlot p accessor m.method) m.method.name t.properties
      ({ t with properties },
        [{ type := t.name, state := "", name := p.name, role := roleOf accessor
           lines := m.lines }])
  | none =>
    (t.addMethod m.method,
      [{ type := t.name, state := t.autoState, name := m.method.name, role := .method
         lines := m.lines }])

def placeMethods (t : ObjectType) : List LoweredMethod → ObjectType × List MethodLines
  | [] => (t, [])
  | m :: rest =>
    let (t, first) := placeMethod t m
    let (t, lines) := placeMethods t rest
    (t, first ++ lines)

structure LoweredType where
  definition : ObjectType
  methods : List MethodLines
  structs : List StructOrder
  listings : List Listing
  warnings : List String

def omittedStructs (options : Options) (t : TypeDecl) : List String :=
  if options.generation.isLater then []
  else (nestedStructs t).map fun n =>
    t.name ++ ": struct " ++ n.name ++ " omitted on " ++ options.generation.title

def structOrders (t : ObjectType) : List StructOrder :=
  t.structs.map fun s => { type := t.name, name := s.name, fields := s.fields.map Field.name }

def lowerType (options : Options) (program : Source.Module) (t : TypeDecl) :
    Except Fault LoweredType := do
  let setting := options.setting program t
  let (lowered, skipped) ←
    lowerMethods setting (t.methods.filter fun m => !m.isConstructor)
  let (definition, methods) := placeMethods setting.target lowered
  return {
    definition
    methods
    structs := structOrders setting.target
    listings := if options.emitListing then lowered.map LoweredMethod.listing else []
    warnings := omittedStructs options t ++ skipped ++ lowered.flatMap LoweredMethod.warnings }

end PapyrusBackend.Lowering
