namespace PapyrusBackend

inductive ByteOrder where
  | big | little
  deriving DecidableEq, Inhabited

inductive Generation where
  | skyrim | fallout4
  deriving DecidableEq, Inhabited

namespace Generation

def title : Generation → String
  | skyrim => "Skyrim"
  | fallout4 => "Fallout 4"

def order : Generation → ByteOrder
  | skyrim => .big
  | fallout4 => .little

/-- The later generation has structs, property groups and constant flags. -/
def isLater : Generation → Bool
  | skyrim => false
  | fallout4 => true

def indexCeiling : Generation → Option Int32
  | skyrim => some 128
  | fallout4 => none

def gameId : Generation → UInt16
  | skyrim => 1
  | fallout4 => 2

def version : Generation → UInt8 × UInt8
  | skyrim => (3, 2)
  | fallout4 => (3, 9)

end Generation

end PapyrusBackend
