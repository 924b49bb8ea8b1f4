import PapyrusBackend.Opcode
import PapyrusBackend.Value

namespace PapyrusBackend.Lowering

inductive Content where
  | literal (value : Value)
  | held (var : Variable)
  /-- a member of a struct variable, not yet read -/
  | member (source field : Variable)
  | method (name : String)
  /-- a comparison, not yet made -/
  | comparison (opcode : Opcode) (lhs rhs : Value)
  deriving DecidableEq, Inhabited

structure Item where
  content : Content
  /-- the script type, empty where it is unknown -/
  type : String
  isThis : Bool := false
  isResult : Bool := false
  deriving DecidableEq, Inhabited

namespace Item

def ofValue (v : Value) : Item := { content := .literal v, type := v.kind.typeName }

def ofVariable (v : Variable) : Item := { content := .held v, type := v.type }

def this (type : String) : Item :=
  { content := .held { name := "self", type := "" }, type, isThis := true }

def result (v : Variable) : Item := { ofVariable v with isResult := true }

def delegate? (i : Item) : Option Variable :=
  match i.content with
  | .held v => if v.isDelegate then some v else none
  | _ => none

def isMember (i : Item) : Bool :=
  match i.content with
  | .member .. => true
  | _ => false

def isFloat (i : Item) : Bool :=
  Text.sameName i.type "float" ||
    match i.content with
    | .literal (.float _) => true
    | _ => false

end Item

def describeValue : Value → String
  | .none => "None"
  | .reference name => "Reference(" ++ Text.quote name ++ ")"
  | .string text => "String(" ++ Text.quote text ++ ")"
  | .int i => "Int(" ++ toString i.toInt ++ ")"
  | .float x => "Float(" ++ Value.listingStyle.render x ++ ")"
  | .bool b => "Bool(" ++ (if b then "true" else "false") ++ ")"

def describeVariable (v : Variable) : String :=
  let invoke := match v.invoke with
    | some name => "Some(" ++ Text.quote name ++ ")"
    | none => "None"
  "VariableReference \x7b name: " ++ Text.quote v.name ++ ", type_name: " ++ Text.quote v.type ++
    ", value: " ++ describeValue v.value ++ ", is_delegate_reference: " ++
    (if v.isDelegate then "true" else "false") ++ ", delegate_invoke_reference: " ++ invoke ++
    " \x7d"

def Content.describe : Content → String
  | literal v => "Literal(" ++ describeValue v ++ ")"
  | held v => "Variable(" ++ describeVariable v ++ ")"
  | member source field =>
    "StructField(StructFieldReference \x7b source: " ++ describeVariable source ++ ", field: " ++
      describeVariable field ++ " \x7d)"
  | method name => "MethodReference(" ++ Text.quote name ++ ")"
  | comparison opcode lhs rhs =>
    "Comparison \x7b opcode: " ++ opcode.title ++ ", lhs: " ++ describeValue lhs ++ ", rhs: " ++
      describeValue rhs ++ " \x7d"

/-- The evaluation stack, its top first. -/
abbrev Stack := List Item

/-- Takes `n` items off the stack, the deepest first. -/
def Stack.popMany? (s : Stack) (n : Nat) : Option (List Item × Stack) :=
  if n ≤ s.length then some ((s.take n).reverse, s.drop n) else none

end PapyrusBackend.Lowering
