import PapyrusBackend.Number.Numeral
import PapyrusBackend.Value

namespace PapyrusBackend

def Value.textStyle : Number.Style where
  positional _ := true
  fraction := false
  plus := false
  tie := .up
  nan := "NaN"
  infinite := "inf"
  negativeInfinite := "-inf"

namespace Coercion

def toBool : Value → Value
  | .int i => .bool (i ≠ 0)
  | .float x => .bool (!x.isZero)
  | .string s => .bool (Text.sameName s "true")
  | v => v

def toInt : Value → Value
  | .float x => .int x.toInt32
  | .bool b => .int (if b then 1 else 0)
  | .string s =>
    match Number.readInt32? s with
    | some i => .int i
    | none => .string s
  | v => v

def toFloat : Value → Value
  | .int i => .float (.ofInt i.toInt)
  | .bool b => .float (if b then .one else .zero)
  | .string s =>
    match Number.readSingle? s with
    | some x => .float x
    | none => .string s
  | v => v

def toText : Value → Value
  | .int i => .string (toString i.toInt)
  | .float x => .string (Value.textStyle.render x)
  | .bool b => .string (if b then "true" else "false")
  | v => v

end Coercion

/-- The literal that stands for `v` where the type `type` is wanted. Literals that cannot be carried
over, and references, stay as they are. -/
def Value.coerce (type : String) (v : Value) : Value :=
  let type := type.toLower
  if type == "bool" then Coercion.toBool v
  else if type == "int" then Coercion.toInt v
  else if type == "float" then Coercion.toFloat v
  else if type == "string" then Coercion.toText v
  else v

end PapyrusBackend
