import Mathlib.Logic.Function.Basic
import PapyrusBackend.Proofs.Semantics.Interpretation
import PapyrusBackend.Proofs.Semantics.Machine
import PapyrusBackend.Source.Declaration

namespace PapyrusBackend.Semantics.Managed

open Source

inductive Slot where
  | argument (index : Nat)
  | local (index : Nat)
  deriving DecidableEq

structure State (V : Type) where
  pc : Nat := 0
  stack : List V := []
  slots : Slot → V

variable {V : Type}

def State.goOn (s : State V) (stack : List V) : State V := { s with pc := s.pc + 1, stack }

def State.write (s : State V) (slot : Slot) (v : V) : State V :=
  { s with slots := Function.update s.slots slot v }

def State.jump (s : State V) (body : List Instr) (offset : UInt32) (stack : List V) :
    Progress (State V) (Outcome V) :=
  match body.findIdx? fun i => i.offset == offset with
  | some target => .next { s with pc := target, stack }
  | none => .stuck

def State.branch (s : State V) (body : List Instr) (offset : UInt32) (stack : List V)
    (taken : Bool) : Progress (State V) (Outcome V) :=
  if taken then s.jump body offset stack else .next (s.goOn stack)

/-- One instruction of integer code. Others, or operands that do not fit, leave the machine stuck. -/
def execute (I : Interpretation V) (m : MethodDecl) (i : Instr) (s : State V) :
    Progress (State V) (Outcome V) :=
  match i.code with
  | .nop => .next (s.goOn s.stack)
  | .ldarg =>
    match i.index? with
    | some k => .next (s.goOn (s.slots (.argument k.toNat) :: s.stack))
    | none => .stuck
  | .ldloc =>
    match i.index? with
    | some k => .next (s.goOn (s.slots (.local k.toNat) :: s.stack))
    | none => .stuck
  | .ldcI4 =>
    match i.operand with
    | .int n => .next (s.goOn (I.int n :: s.stack))
    | _ => .stuck
  | .starg =>
    match i.index?, s.stack with
    | some k, v :: stack => .next ((s.goOn stack).write (.argument k.toNat) v)
    | _, _ => .stuck
  | .stloc =>
    match i.index?, s.stack with
    | some k, v :: stack => .next ((s.goOn stack).write (.local k.toNat) v)
    | _, _ => .stuck
  | .neg =>
    match s.stack with
    | v :: stack => .next (s.goOn (I.neg v :: stack))
    | [] => .stuck
  | .dup =>
    match s.stack with
    | v :: stack => .next (s.goOn (v :: v :: stack))
    | [] => .stuck
  | .pop =>
    match s.stack with
    | _ :: stack => .next (s.goOn stack)
    | [] => .stuck
  | .ret =>
    if m.returns.isVoid then .halt (.returned none)
    else
      match s.stack with
      | v :: _ => .halt (.returned (some v))
      | [] => .stuck
  | .br =>
    match i.target? with
    | some offset => s.jump m.body offset s.stack
    | none => .stuck
  | .brtrue =>
    match i.target?, s.stack with
    | some offset, v :: stack => s.branch m.body offset stack (I.truth v)
    | _, _ => .stuck
  | .brfalse =>
    match i.target?, s.stack with
    | some offset, v :: stack => s.branch m.body offset stack (!I.truth v)
    | _, _ => .stuck
  | code =>
    match Operator.ofCode? code, Comparison.ofBranch? code, s.stack with
    | some operator, _, b :: a :: stack => .next (s.goOn (I.operate operator a b :: stack))
    | none, some (comparison, expected), b :: a :: stack =>
      match i.target? with
      | some offset =>
        s.branch m.body offset stack (I.truth (I.compare comparison a b) == expected)
      | none => .stuck
    | _, _, _ => .stuck

def step (I : Interpretation V) (m : MethodDecl) (s : State V) : Progress (State V) (Outcome V) :=
  match m.body[s.pc]? with
  | some i => execute I m i s
  | none => .halt .ended

end PapyrusBackend.Semantics.Managed
