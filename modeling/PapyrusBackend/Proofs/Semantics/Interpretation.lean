import PapyrusBackend.Opcode
import PapyrusBackend.Source.Code

namespace PapyrusBackend.Semantics

open Source

inductive Operator where
  | add | sub | mul | div | rem
  deriving DecidableEq

def Operator.ofCode? : Code → Option Operator
  | .add => some .add | .sub => some .sub | .mul => some .mul | .div => some .div
  | .rem => some .rem | _ => none

def Operator.ofOpcode? : Opcode → Option Operator
  | .iadd => some .add | .isub => some .sub | .imul => some .mul | .idiv => some .div
  | .imod => some .rem | _ => none

inductive Comparison where
  | eq | lt | le | gt | ge
  deriving DecidableEq

def Comparison.ofBranch? : Code → Option (Comparison × Bool)
  | .beq => some (.eq, true) | .bneUn => some (.eq, false) | .bgt => some (.gt, true)
  | .bge => some (.ge, true) | .blt => some (.lt, true) | .ble => some (.le, true)
  | _ => none

def Comparison.ofOpcode? : Opcode → Option Comparison
  | .cmpEq => some .eq | .cmpLt => some .lt | .cmpLe => some .le | .cmpGt => some .gt
  | .cmpGe => some .ge | _ => none

structure Interpretation (V : Type) where
  int : Int32 → V
  operate : Operator → V → V → V
  neg : V → V
  compare : Comparison → V → V → V
  truth : V → Bool

inductive Outcome (V : Type) where
  | returned (result : Option V)
  | ended
  deriving DecidableEq

end PapyrusBackend.Semantics
