import PapyrusBackend.Opcode
import PapyrusBackend.Value

namespace PapyrusBackend

/-- Where a jump lands: at the code of a managed instruction, while a method is being lowered, and
at a position of the finished body afterwards. -/
inductive Target where
  | source (offset : UInt32)
  | position (index : Nat)
  deriving DecidableEq, Inhabited

/-- An instruction knows its place and its method once it is part of a body. -/
structure Instruction where
  opcode : Opcode
  arguments : List Value := []
  variadic : List Value := []
  target : Option Target := none
  offset : Nat := 0
  method : String := ""
  deriving DecidableEq, BEq, Inhabited

namespace Instruction

def assign (destination : String) (value : Value) : Instruction :=
  { opcode := .assign, arguments := [.reference destination, value] }

def jump (target : Option Target) : Instruction :=
  { opcode := .jmp, arguments := [.int 0], target }

def jumpIf (expected : Bool) (condition : Value) (target : Option Target) : Instruction :=
  { opcode := if expected then .jmpt else .jmpf, arguments := [condition, .int 0], target }

def structGet (destination : String) (source : Value) (member : String) : Instruction :=
  { opcode := .structGet, arguments := [.reference destination, source, .reference member] }

def structSet (holder : Value) (member : String) (value : Value) : Instruction :=
  { opcode := .structSet, arguments := [holder, .reference member, value] }

def delta? (i : Instruction) : Option Int32 :=
  match i.opcode.jumpArgument?.bind fun k => i.arguments[k]? with
  | some (.int d) => some d
  | _ => none

def hasValidArity (i : Instruction) : Bool :=
  i.arguments.length = i.opcode.arity && (i.opcode.variadic || i.variadic.isEmpty)

def spell (opcode : Opcode) (operands : List Value) : String :=
  " ".intercalate (opcode.mnemonic :: operands.map Value.render)

def render (i : Instruction) : String := spell i.opcode (i.arguments ++ i.variadic)

def renderWithoutDelta (i : Instruction) : String :=
  let fixed := match i.opcode.jumpArgument? with
    | some k => i.arguments.eraseIdx k
    | none => i.arguments
  spell i.opcode (fixed ++ i.variadic)

/-- Puts `value` at place `k`, with empty arguments in front of it where there are too few. -/
def setArgument (k : Nat) (value : Value) (arguments : List Value) : List Value :=
  (arguments ++ List.replicate (k + 1 - arguments.length) Value.none).set k value

def withDelta (i : Instruction) : Instruction :=
  match i.target, i.opcode.jumpArgument? with
  | some (.position t), some k =>
    let distance : Int := t - i.offset
    { i with arguments := setArgument k (.int (Int32.ofInt distance)) i.arguments }
  | _, _ => i

end Instruction

end PapyrusBackend
