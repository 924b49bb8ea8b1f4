import PapyrusBackend.Container.Bytes
import PapyrusBackend.Container.StringTable
import PapyrusBackend.Fault
import PapyrusBackend.Number.Single

namespace PapyrusBackend.Container

structure Output where
  order : ByteOrder
  bytes : Array UInt8 := Array.empty
  table : StringTable := {}

abbrev Write := EStateM Fault Output

namespace Write

def bytes (bs : List UInt8) : Write Unit := fun ⟨order, done, table⟩ =>
  .ok () ⟨order, done.appendList bs, table⟩

def word (width n : Nat) : Write Unit := do
  bytes (toBytes (← get).order width n)

def u8 (n : UInt8) : Write Unit := word 1 n.toNat

def u16 (n : UInt16) : Write Unit := word 2 n.toNat

def u32 (n : UInt32) : Write Unit := word 4 n.toNat

def u64 (n : UInt64) : Write Unit := word 8 n.toNat

def i16 (n : Int16) : Write Unit := u16 n.toUInt16

def i32 (n : Int32) : Write Unit := u32 n.toUInt32

def single (x : Single) : Write Unit := u32 x.bits

def count (what : String) (n : Nat) : Write Unit :=
  if n < 65536 then word 2 n else throw (.tooMany what n)

def inlineText (s : String) : Write Unit := do
  let encoded := s.toUTF8.data.toList
  count "string bytes" encoded.length
  bytes encoded

def text (s : String) : Write Unit := fun ⟨order, done, table⟩ =>
  match table.intern s with
  | (some place, table) => u16 place ⟨order, done, table⟩
  | (none, table) => .error (.tooMany "strings" (table.size + 1)) ⟨order, done, table⟩

def each (item : α → Write Unit) : List α → Write Unit
  | [] => return ()
  | a :: rest => do
    item a
    each item rest

def counted (what : String) (item : α → Write Unit) (items : List α) : Write Unit := do
  count what items.length
  each item items

/-- A section with its size in front, in which the size itself is counted. -/
def framed (content : Write Unit) : Write Unit := fun ⟨order, done, table⟩ =>
  match content ⟨order, Array.empty, table⟩ with
  | .ok () ⟨_, inner, table⟩ =>
    .ok () ⟨order, done.appendList (toBytes order 4 (inner.size + 4)) ++ inner, table⟩
  | .error fault ⟨_, inner, table⟩ => .error fault ⟨order, done ++ inner, table⟩

def patch (start : Nat) (n : UInt32) : Write Unit := fun ⟨order, done, table⟩ =>
  let before := done.toList.take start
  let after := done.toList.drop (start + 4)
  .ok () ⟨order, (before ++ toBytes order 4 n.toNat ++ after).toArray, table⟩

end Write

end PapyrusBackend.Container
