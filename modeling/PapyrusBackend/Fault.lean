import PapyrusBackend.Text.Quoted

namespace PapyrusBackend

inductive Fault where
  | stackUnderflow (method : String) (offset : UInt32) (needed available : Nat)
  | invalidProperty (method accessor : String)
  /-- an instruction lacks its operand, or names what is not there -/
  | invalidSource (reason : String)
  | unsupported (reason : String)
  | badIndex (index : UInt16) (size : Nat)
  | endOfData (offset needed available : Nat)
  | badMagic (found : List UInt8)
  | wrongGeneration (expected found : String)
  | unknownOpcode (byte : UInt8) (offset : Nat)
  | unknownKind (byte : UInt8) (offset : Nat)
  | invalidText (offset : Nat)
  | tooMany (what : String) (count : Nat)
  | wrongArity (mnemonic : String) (expected got : Nat)
  deriving DecidableEq

inductive Severity where
  | fatal | recoverable | warning
  deriving DecidableEq

def Severity.title : Severity → String
  | fatal => "Fatal" | recoverable => "Recoverable" | warning => "Warning"

/-- Strict callers want the first fault; lenient ones the best result that can be had. -/
inductive Policy where
  | strict | lenient
  deriving DecidableEq, Inhabited

namespace Fault

def message : Fault → String
  | stackUnderflow method offset needed available =>
    "Stack underflow in " ++ method ++ " at IL_" ++ Text.hexPadded 4 offset.toNat ++ ": needed " ++
      toString needed ++ ", had " ++ toString available
  | invalidProperty method accessor => "Invalid property access in " ++ method ++ ": " ++ accessor
  | invalidSource reason => "Invalid source: " ++ reason
  | unsupported reason => "Translation error: " ++ reason
  | badIndex index size =>
    "String table index " ++ toString index.toNat ++ " out of bounds (table size " ++
      toString size ++ ")"
  | endOfData offset needed available =>
    "Unexpected end of data at offset " ++ toString offset ++ ": need " ++ toString needed ++
      " bytes, have " ++ toString available
  | badMagic found =>
    "Invalid magic [" ++ ", ".intercalate (found.map fun b => Text.hexPadded 2 b.toNat) ++ "]"
  | wrongGeneration expected found =>
    "Generation mismatch: expected " ++ expected ++ ", found " ++ found
  | unknownOpcode byte offset =>
    "Unknown opcode 0x" ++ Text.hexPadded 2 byte.toNat ++ " at offset " ++ toString offset
  | unknownKind byte offset =>
    "Unknown value kind " ++ toString byte.toNat ++ " at offset " ++ toString offset
  | invalidText offset => "Invalid string data at offset " ++ toString offset
  | tooMany what count => "Too many " ++ what ++ ": " ++ toString count
  | wrongArity mnemonic expected got =>
    "Opcode " ++ mnemonic ++ " expects " ++ toString expected ++ " arguments, got " ++ toString got

def severity : Fault → Severity
  | invalidProperty .. | badMagic .. | endOfData .. | wrongGeneration .. => .fatal
  | tooMany .. => .warning
  | _ => .recoverable

/-- A lenient caller goes on without the instruction that caused the fault. -/
def isLocal : Fault → Bool
  | stackUnderflow .. => true
  | _ => false

end Fault

end PapyrusBackend
