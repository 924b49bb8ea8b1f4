import PapyrusBackend.Source.Reference
import PapyrusBackend.Text.Quoted

namespace PapyrusBackend.Naming

open Source

def primitive? (scope name : String) : Option String :=
  let system := scope == "System"
  if name == "void" || (system && name == "Void") then some "None"
  else if name == "bool" || (system && name == "Boolean") then some "Bool"
  else if ["int", "long", "short", "byte"].contains name || (system &&
      ["Int16", "Int32", "Int64", "UInt16", "UInt32", "UInt64", "Byte", "SByte", "Char"].contains
        name) then some "Int"
  else if ["float", "double"].contains name || (system && ["Single", "Double"].contains name) then
    some "Float"
  else if name == "string" || (system && name == "String") then some "String"
  else none

/-- Primitive types have names of their own, nested value types are structs of their outer type, and
all others keep their simple name. -/
def typeName (t : TypeRef) : String :=
  let base := match primitive? t.scope t.name with
    | some name => name
    | none =>
      match t.outer with
      | some outer => if t.isValue then outer ++ "#" ++ t.name else t.name
      | none => t.name
  if t.isArray then base ++ "[]" else base

def fieldName (name : String) : String :=
  "::" ++ String.ofList (name.toList.map fun c => if c = '<' ∨ c = '>' then '_' else c)

def localName (index : Nat) (name : Option String) : String :=
  match name with
  | some name => if name.isEmpty then "V_" ++ toString index else name
  | none => "V_" ++ toString index

/-- Struct types show by the mark between outer and inner name. -/
def isStruct (type : String) : Bool := type.toList.contains '#'

/-- A callee of unknown declaration counts as static if its name is qualified. -/
def isStaticByName (qualified : String) : Bool := Text.contains "::" qualified

def location (qualified : String) : String :=
  Text.afterLast (fun c => c = '.' || c = '/') (Text.before "::" qualified)

inductive Accessor where
  | get | set
  deriving DecidableEq, Inhabited

/-- Accessors show by the first four letters of their name, in any case. -/
def accessor? (name : String) : Option Accessor :=
  let mark := String.ofList ((name.toList.take 4).map Char.toLower)
  if mark == "get_" then some .get else if mark == "set_" then some .set else none

def accessed (name : String) : String := String.ofList (name.toList.drop 4)

end PapyrusBackend.Naming
