import PapyrusBackend.Source.Code
import PapyrusBackend.Value

namespace PapyrusBackend.Source

structure Local where
  name : Option String := none
  type : TypeRef
  deriving DecidableEq, Inhabited

structure MethodDecl where
  name : String
  parameters : List Parameter := []
  returns : TypeRef := .void
  isStatic : Bool := false
  isConstructor : Bool := name == ".ctor" || name == ".cctor"
  isNative : Bool := false
  locals : List Local := []
  body : List Instr := []
  documentation : String := ""
  deriving DecidableEq, Inhabited

namespace MethodDecl

/-- Whether a reference can mean this method: name and number of parameters agree. -/
def isMeantBy (m : MethodDecl) (ref : MethodRef) : Bool :=
  m.name == ref.name && m.parameters.length == ref.parameters.length

def reference (m : MethodDecl) (owner : TypeRef) : MethodRef :=
  { owner, name := m.name, parameters := m.parameters, returns := m.returns
    hasThis := !m.isStatic }

end MethodDecl

structure FieldDecl where
  name : String
  type : TypeRef
  isStatic : Bool := false
  value : Option Value := none
  documentation : String := ""
  deriving DecidableEq, Inhabited

structure PropertyDecl where
  name : String
  type : TypeRef
  getter : Option String := some ("get_" ++ name)
  setter : Option String := some ("set_" ++ name)
  /-- the field behind a property without accessor code -/
  backing : Option String := none
  documentation : String := ""
  deriving DecidableEq, Inhabited

def PropertyDecl.auto (name : String) (type : TypeRef) : PropertyDecl :=
  { name, type, backing := some ("<" ++ name ++ ">k__BackingField") }

structure TypeDecl where
  scope : String := ""
  name : String := ""
  base : Option TypeRef := none
  isValue : Bool := false
  isDelegate : Bool := false
  fields : List FieldDecl := []
  properties : List PropertyDecl := []
  methods : List MethodDecl := []
  nested : List TypeDecl := []
  documentation : String := ""
  deriving Inhabited

abbrev Bindings := List (String × String)

namespace Bindings

def bind (b : Bindings) (field method : String) : Bindings :=
  (field, method) :: b.filter fun entry => entry.1 != field

def unbind (b : Bindings) (field : String) : Bindings := b.filter fun entry => entry.1 != field

end Bindings

namespace TypeDecl

def reference (t : TypeDecl) : TypeRef :=
  { scope := t.scope, name := t.name, isValue := t.isValue, isDelegate := t.isDelegate }

def method? (t : TypeDecl) (ref : MethodRef) : Option MethodDecl :=
  t.methods.find? fun m => m.isMeantBy ref

def isNamedBy (t : TypeDecl) (ref : TypeRef) : Bool :=
  ref.outer.isNone && ref.name == t.name && ref.scope == t.scope

/-- The bindings after a stretch of code in which a method was last loaded as `loaded`. A load is
used up by the next store into a delegate field. -/
def bindingsAfter (bound : Bindings) (loaded : Option String) : List Instr → Bindings
  | [] => bound
  | i :: rest =>
    match i.code, i.operand with
    | .ldftn, .method m => bindingsAfter bound (some m.name) rest
    | .stfld, .field f | .stsfld, .field f =>
      if f.type.isDelegate then
        match loaded with
        | some name => bindingsAfter (bound.bind f.name name) none rest
        | none => bindingsAfter bound none rest
      else bindingsAfter bound loaded rest
    | _, _ => bindingsAfter bound loaded rest

/-- What the methods of a type bind its delegate fields to. The last one wins. -/
def delegateBindings (t : TypeDecl) : Bindings :=
  t.methods.foldl (fun bound m => bindingsAfter bound none m.body) []

end TypeDecl

structure Module where
  name : String := ""
  types : List TypeDecl := []
  deriving Inhabited

namespace Module

def type? (m : Module) (ref : TypeRef) : Option TypeDecl :=
  match ref.outer with
  | none => m.types.find? fun t => t.isNamedBy ref
  | some outer =>
    ((m.types.filter fun t => t.name == outer).flatMap TypeDecl.nested).find? fun n =>
      n.name == ref.name

def method? (m : Module) (ref : MethodRef) : Option (TypeDecl × MethodDecl) :=
  match m.type? ref.owner with
  | none => none
  | some t => (t.method? ref).map fun decl => (t, decl)

end Module

end PapyrusBackend.Source
