import PapyrusBackend.Container.Bytes
import PapyrusBackend.Container.StringTable
import PapyrusBackend.Fault
import PapyrusBackend.Number.Single

namespace PapyrusBackend.Container

/-- How texts are stored: in place, or by their place in the string table. -/
inductive TextMode where
  | inline | indexed
  deriving DecidableEq, Inhabited

structure Reader where
  rest : List UInt8
  order : ByteOrder
  position : Nat := 0
  policy : Policy := .lenient
  mode : TextMode := .indexed
  table : StringTable := {}
  corrupted : Bool := false

abbrev Read := EStateM Fault Reader

namespace Read

def bytes (n : Nat) : Read (List UInt8) := fun r =>
  let taken := r.rest.take n
  if taken.length = n then
    .ok taken { r with rest := r.rest.drop n, position := r.position + n }
  else .error (.endOfData r.position n r.rest.length) r

def word (width : Nat) : Read Nat := do
  let order := (← get).order
  let taken ← bytes width
  return ofBytes order taken

def u8 : Read UInt8 := return UInt8.ofNat (← word 1)

def u16 : Read UInt16 := return UInt16.ofNat (← word 2)

def u32 : Read UInt32 := return UInt32.ofNat (← word 4)

def u64 : Read UInt64 := return UInt64.ofNat (← word 8)

def i16 : Read Int16 := return (← u16).toInt16

def i32 : Read Int32 := return (← u32).toInt32

def single : Read Single := return ⟨← u32⟩

def position : Read Nat := return (← get).position

def inlineText : Read String := do
  let start ← position
  let length ← u16
  let taken ← bytes length.toNat
  match String.fromUTF8? ⟨taken.toArray⟩ with
  | some s => return s
  | none => throw (.invalidText start)

/-- A place that the table has. A lenient reader takes the last one for a place beyond it. -/
def resolve (place : UInt16) : Read UInt16 := fun r =>
  let size := r.table.size
  if place.toNat < size then .ok place r
  else if r.policy = .strict ∨ size = 0 then .error (.badIndex place size) r
  else .ok (UInt16.ofNat (size - 1)) { r with corrupted := true }

def indexedText : Read String := do
  let place ← resolve (← u16)
  return ((← get).table.get? place).getD ""

def text : Read String := do
  match (← get).mode with
  | .inline => inlineText
  | .indexed => indexedText

/-- `n` items in front of which `done` were read, the last one first. -/
def repeatOnto (item : Read α) : Nat → List α → Read (List α)
  | 0, done => return done.reverse
  | n + 1, done => do
    let a ← item
    repeatOnto item n (a :: done)

def times (n : Nat) (item : Read α) : Read (List α) := repeatOnto item n []

def counted (item : Read α) : Read (List α) := do
  let n ← u16
  times n.toNat item

end Read

end PapyrusBackend.Container
