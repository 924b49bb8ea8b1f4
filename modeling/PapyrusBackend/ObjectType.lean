import PapyrusBackend.Body

namespace PapyrusBackend

structure Method where
  name : String
  returns : String
  documentation : String := ""
  userFlags : UInt32 := 0
  flags : UInt8 := 0
  parameters : List TypedName := []
  body : Body := { owner := name }
  deriving DecidableEq, BEq, Inhabited

namespace Method

def globalFlag : UInt8 := 1

def nativeFlag : UInt8 := 2

def isGlobal (m : Method) : Bool := m.flags &&& globalFlag ≠ 0

def isNative (m : Method) : Bool := m.flags &&& nativeFlag ≠ 0

def returnsNone (m : Method) : Bool := Text.sameName m.returns "none"

def rename (m : Method) (name : String) : Method := { m with name, body := m.body.rename name }

end Method

structure Field where
  name : String
  type : String
  userFlags : UInt32 := 0
  value : Value := .none
  flags : UInt8 := 0
  documentation : String := ""
  deriving DecidableEq, BEq, Inhabited

/-- A property reads and writes a backing field, or it calls methods. -/
inductive Accessors where
  | auto (backing : String)
  | explicit (getter setter : Option Method)
  deriving DecidableEq, BEq, Inhabited

structure Property where
  name : String
  type : String
  documentation : String := ""
  userFlags : UInt32 := 0
  flags : UInt8
  accessors : Accessors
  deriving DecidableEq, BEq, Inhabited

namespace Property

def readFlag : UInt8 := 1

def writeFlag : UInt8 := 2

def autoFlag : UInt8 := 4

def getterName (name : String) : String := "get_" ++ name

def setterName (name : String) : String := "set_" ++ name

def accessFlags (getter setter : Option Method) : UInt8 :=
  (if getter.isSome then readFlag else 0) ||| (if setter.isSome then writeFlag else 0)

def auto (name type backing : String) : Property :=
  { name, type, flags := readFlag ||| writeFlag ||| autoFlag, accessors := .auto backing }

def explicit (name type : String) (getter setter : Option Method) : Property :=
  { name, type
    flags := accessFlags getter setter
    accessors := .explicit (getter.map fun m => m.rename (getterName name))
      (setter.map fun m => m.rename (setterName name)) }

def getter? (p : Property) : Option Method :=
  match p.accessors with
  | .auto _ => none
  | .explicit getter _ => getter

def setter? (p : Property) : Option Method :=
  match p.accessors with
  | .auto _ => none
  | .explicit _ setter => setter

def isAuto (p : Property) : Bool :=
  match p.accessors with
  | .auto _ => true
  | .explicit .. => false

def methods (p : Property) : List Method := p.getter?.toList ++ p.setter?.toList

/-- The flags as a container holds them, in accord with the accessors. -/
def storedFlags (p : Property) : UInt8 :=
  match p.accessors with
  | .auto _ => p.flags ||| autoFlag
  | .explicit getter setter => (p.flags &&& 0xF8) ||| accessFlags getter setter

def hasAccessor (p : Property) (method : String) : Bool :=
  Text.sameName method (getterName p.name) || Text.sameName method (setterName p.name)

end Property

structure State where
  name : String
  methods : List Method := []
  deriving DecidableEq, BEq, Inhabited

structure Struct where
  name : String
  fields : List Field := []
  deriving DecidableEq, BEq, Inhabited

structure ObjectType where
  name : String
  base : String := ""
  documentation : String := ""
  flags : UInt8 := 0
  userFlags : UInt32 := 0
  autoState : String := ""
  structs : List Struct := []
  fields : List Field := []
  properties : List Property := []
  states : List State := [{ name := "" }]
  deriving DecidableEq, BEq, Inhabited

namespace ObjectType

/-- Applies `f` to the first state of the given name; if there is none, one is added. -/
def updateState (f : State → State) (name : String) : List State → List State
  | [] => [f { name }]
  | s :: rest => if s.name == name then f s :: rest else s :: updateState f name rest

def updateDefaultState (f : State → State) (t : ObjectType) : ObjectType :=
  { t with states := updateState f t.autoState t.states }

def defaultState (t : ObjectType) : State :=
  (t.states.find? fun s => s.name == t.autoState).getD { name := t.autoState }

def addMethod (t : ObjectType) (m : Method) : ObjectType :=
  t.updateDefaultState fun s => { s with methods := s.methods ++ [m] }

/-- A property by the name of an accessor, or else by its own. -/
def property? (t : ObjectType) (name : String) : Option Property :=
  (t.properties.find? fun p => p.hasAccessor name).or
    (t.properties.find? fun p => Text.sameName p.name name)

def field? (t : ObjectType) (name : String) : Option Field :=
  t.fields.find? fun f => f.name == name

def struct? (t : ObjectType) (name : String) : Option Struct :=
  t.structs.find? fun s => s.name == name

def methods (t : ObjectType) : List Method := t.states.flatMap State.methods

end ObjectType

end PapyrusBackend
