import Std.Data.HashMap

namespace PapyrusBackend

structure StringTable where
  strings : Array String := Array.empty
  places : Std.HashMap String UInt16 := ∅

namespace StringTable

def capacity : Nat := 65536

def size (t : StringTable) : Nat := t.strings.size

def get? (t : StringTable) (place : UInt16) : Option String := t.strings[place.toNat]?

def toList (t : StringTable) : List String := t.strings.toList

/-- The place of a text, which is added if it is new and there is room. -/
def intern (t : StringTable) (s : String) : Option UInt16 × StringTable :=
  match t.places[s]? with
  | some place => (some place, t)
  | none =>
    if t.strings.size < capacity then
      let place := UInt16.ofNat t.strings.size
      (some place, { strings := t.strings.push s, places := t.places.insert s place })
    else (none, t)

/-- Texts in the order of a file. Repeated texts stay, and the first one gives the place. -/
def ofList (strings : List String) : StringTable where
  strings := strings.toArray
  places := strings.zipIdx.foldl (fun places (s, k) => places.insertIfNew s (UInt16.ofNat k)) ∅

end StringTable

end PapyrusBackend
