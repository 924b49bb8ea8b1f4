import PapyrusBackend.Text.Quoted

namespace PapyrusBackend

inductive Json where
  | word (text : String)
  | string (text : String)
  | list (items : List Json)
  | object (members : List (String × Json))

namespace Json

def escape (c : Char) : String :=
  if c = '\x22' then "\\\""
  else if c = '\x5c' then "\\\\"
  else if c = '\x08' then "\\b"
  else if c = '\x0c' then "\\f"
  else if c = '\n' then "\\n"
  else if c = '\r' then "\\r"
  else if c = '\t' then "\\t"
  else if c.toNat < 0x20 then "\\u" ++ Text.hexPadded 4 c.toNat
  else c.toString

def quote (s : String) : String := "\"" ++ String.join (s.toList.map escape) ++ "\""

def indent (depth : Nat) : String := String.ofList (List.replicate (2 * depth) ' ')

def block (depth : Nat) (first last : String) (items : List String) : String :=
  if items.isEmpty then first ++ last
  else
    let lines := items.map fun item => indent (depth + 1) ++ item
    first ++ "\n" ++ ",\n".intercalate lines ++ "\n" ++ indent depth ++ last

mutual

def render (depth : Nat) : Json → String
  | word text => text
  | string text => quote text
  | list items => block depth "[" "]" (renderItems (depth + 1) items)
  | object members => block depth "\x7b" "\x7d" (renderMembers (depth + 1) members)

def renderItems (depth : Nat) : List Json → List String
  | [] => []
  | item :: rest => render depth item :: renderItems depth rest

def renderMembers (depth : Nat) : List (String × Json) → List String
  | [] => []
  | (name, value) :: rest => (quote name ++ ": " ++ render depth value) :: renderMembers depth rest

end

def null : Json := .word "null"

def nat (n : Nat) : Json := .word (toString n)

def bool (b : Bool) : Json := .word (if b then "true" else "false")

def strings (xs : List String) : Json := .list (xs.map .string)

def option (f : α → Json) : Option α → Json
  | none => null
  | some a => f a

end Json

end PapyrusBackend
