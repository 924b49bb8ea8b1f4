import PapyrusBackend.Generation
import PapyrusBackend.ObjectType

namespace PapyrusBackend

def magic : UInt32 := 0xFA57C0DE

structure Header where
  identifier : UInt32
  major : UInt8
  minor : UInt8
  gameId : UInt16
  compileTime : UInt64
  source : String
  user : String := ""
  computer : String := ""
  deriving DecidableEq, BEq, Inhabited

def Header.make (generation : Generation) (source : String) (time : UInt64) : Header :=
  { identifier := magic
    major := generation.version.1
    minor := generation.version.2
    gameId := generation.gameId
    compileTime := time
    source }

inductive Role where
  | method | getter | setter
  deriving DecidableEq, Inhabited

def Role.toByte : Role → UInt8
  | method => 0
  | getter => 1
  | setter => 2

/-- Bytes of no meaning stand for plain methods. -/
def Role.ofByte (b : UInt8) : Role :=
  if b = 1 then getter else if b = 2 then setter else method

theorem Role.ofByte_toByte (r : Role) : Role.ofByte r.toByte = r := by
  cases r <;> rfl

structure MethodLines where
  type : String
  state : String
  name : String
  role : Role
  lines : List UInt16
  deriving DecidableEq, BEq, Inhabited

structure PropertyGroup where
  object : String
  name : String
  documentation : String
  userFlags : UInt32
  properties : List String
  deriving DecidableEq, BEq, Inhabited

structure StructOrder where
  type : String
  name : String
  fields : List String
  deriving DecidableEq, BEq, Inhabited

structure DebugInfo where
  time : UInt64 := 0
  methods : List MethodLines := []
  groups : List PropertyGroup := []
  structs : List StructOrder := []
  deriving DecidableEq, BEq, Inhabited

structure UserFlag where
  name : String
  index : UInt8
  deriving DecidableEq, BEq, Inhabited

structure Assembly where
  generation : Generation
  header : Header
  debug : Option DebugInfo := none
  userFlags : List UserFlag := []
  types : List ObjectType := []
  /-- set when reading had to replace a bad string index -/
  corrupted : Bool := false
  deriving DecidableEq, BEq, Inhabited

namespace Assembly

def type? (a : Assembly) (name : String) : Option ObjectType :=
  a.types.find? fun t => Text.sameName t.name name

def methods (a : Assembly) : List Method :=
  a.types.flatMap fun t => t.methods ++ t.properties.flatMap Property.methods

def instructionCount (a : Assembly) : Nat :=
  a.methods.foldl (fun count m => count + m.body.length) 0

end Assembly

end PapyrusBackend
