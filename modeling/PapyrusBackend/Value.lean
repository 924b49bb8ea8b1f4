import PapyrusBackend.Number.Shortest
import PapyrusBackend.Text.Quoted

namespace PapyrusBackend

inductive Kind where
  | none | reference | string | int | float | bool
  deriving DecidableEq, Inhabited

namespace Kind

def toByte : Kind → UInt8
  | none => 0 | reference => 1 | string => 2 | int => 3 | float => 4 | bool => 5

def ofByte? (b : UInt8) : Option Kind := [none, reference, string, int, float, bool][b.toNat]?

theorem ofByte?_toByte (k : Kind) : ofByte? k.toByte = some k := by
  cases k <;> rfl

def title : Kind → String
  | none => "None" | reference => "Reference" | string => "String" | int => "Int"
  | float => "Float" | bool => "Bool"

def typeName : Kind → String
  | reference => ""
  | k => k.title

end Kind

inductive Value where
  | none
  | reference (name : String)
  | string (text : String)
  | int (value : Int32)
  | float (value : Single)
  | bool (value : Bool)
  deriving DecidableEq, BEq, Inhabited

namespace Value

def kind : Value → Kind
  | none => .none
  | reference _ => .reference
  | string _ => .string
  | int _ => .int
  | float _ => .float
  | bool _ => .bool

/-- Numbers in listings: a power of ten from `1e16` on and below `1e-4`. -/
def listingStyle : Number.Style where
  positional e := -4 ≤ e && e < 16
  fraction := true
  plus := false
  tie := .up
  nan := "NaN"
  infinite := "inf"
  negativeInfinite := "-inf"

def render : Value → String
  | none => "None"
  | reference name => name
  | string text => Text.quote text
  | int i => toString i.toInt
  | float x => listingStyle.render x
  | bool true => "True"
  | bool false => "False"

end Value

structure TypedName where
  name : String
  type : String
  deriving DecidableEq, Inhabited

/-- A variable as code refers to it. A delegate variable may know the method it is bound to. -/
structure Variable where
  name : String
  type : String
  isDelegate : Bool := false
  invoke : Option String := none
  deriving DecidableEq, Inhabited

namespace Variable

def value (v : Variable) : Value := .reference v.name

def declaration (v : Variable) : TypedName := ⟨v.name, v.type⟩

end Variable

end PapyrusBackend
