import PapyrusBackend.Text.Search

namespace PapyrusBackend.Source

structure TypeRef where
  scope : String := ""
  name : String := ""
  isValue : Bool := false
  outer : Option String := none
  isArray : Bool := false
  isDelegate : Bool := false
  deriving DecidableEq, Inhabited

namespace TypeRef

def system (name : String) (isValue : Bool) : TypeRef := { scope := "System", name, isValue }

def void : TypeRef := system "Void" false

def int32 : TypeRef := system "Int32" true

def single : TypeRef := system "Single" true

def boolean : TypeRef := system "Boolean" true

def string : TypeRef := system "String" false

def object : TypeRef := system "Object" false

def nestedStruct (outer name : String) : TypeRef := { name, isValue := true, outer := some outer }

def delegate (scope name : String) : TypeRef := { scope, name, isDelegate := true }

def isVoid (t : TypeRef) : Bool := !t.isArray && (t.name == "Void" || t.name == "void")

def fullName (t : TypeRef) : String :=
  match t.outer with
  | some outer => outer ++ "/" ++ t.name
  | none => if t.scope.isEmpty then t.name else t.scope ++ "." ++ t.name

end TypeRef

structure Parameter where
  name : String
  type : TypeRef
  deriving DecidableEq, Inhabited

inductive CallingConvention where
  | standard | thisCall
  deriving DecidableEq, Inhabited

structure MethodRef where
  owner : TypeRef := {}
  name : String := ""
  parameters : List Parameter := []
  returns : TypeRef := .void
  hasThis : Bool := false
  convention : CallingConvention := .standard
  deriving DecidableEq, Inhabited

namespace MethodRef

/-- The name behind that of its type, or the bare name if the type is unknown. -/
def qualifiedName (m : MethodRef) : String :=
  if m.owner.name.isEmpty then m.name else m.owner.fullName ++ "::" ++ m.name

/-- Whether the name contains that of a constructor and nothing is returned. -/
def isConstructorName (m : MethodRef) : Bool :=
  Text.contains ".ctor" m.name && m.returns.isVoid

end MethodRef

structure FieldRef where
  owner : TypeRef := {}
  name : String := ""
  type : TypeRef := {}
  isStatic : Bool := false
  deriving DecidableEq, Inhabited

end PapyrusBackend.Source
