import Mathlib.Logic.Function.Basic
import PapyrusBackend.Instruction
import PapyrusBackend.Proofs.Semantics.Interpretation
import PapyrusBackend.Proofs.Semantics.Machine

namespace PapyrusBackend.Semantics.Script

structure State (V : Type) where
  pc : Nat := 0
  env : String → V

variable {V : Type}

def eval (I : Interpretation V) (env : String → V) : Value → Option V
  | .int n => some (I.int n)
  | .reference name => some (env name)
  | _ => none

def State.write (s : State V) (destination : Value) (result : Option V) :
    Progress (State V) (Outcome V) :=
  match destination, result with
  | .reference name, some v => .next { pc := s.pc + 1, env := Function.update s.env name v }
  | _, _ => .stuck

def State.jump (s : State V) (i : Instruction) : Progress (State V) (Outcome V) :=
  match i.target with
  | some (.position t) =>
    if i.delta? = some (Int32.ofInt (t - s.pc)) then .next { s with pc := t } else .stuck
  | _ => .stuck

def State.jumpIf (s : State V) (i : Instruction) (taken : Option Bool) :
    Progress (State V) (Outcome V) :=
  match taken with
  | some true => s.jump i
  | some false => .next { s with pc := s.pc + 1 }
  | none => .stuck

def binary? (I : Interpretation V) (opcode : Opcode) : Option (V → V → V) :=
  ((Operator.ofOpcode? opcode).map I.operate).or ((Comparison.ofOpcode? opcode).map I.compare)

def execute (I : Interpretation V) (i : Instruction) (s : State V) :
    Progress (State V) (Outcome V) :=
  match i.opcode, i.arguments with
  | .assign, [d, v] => s.write d (eval I s.env v)
  | .ineg, [d, v] => s.write d ((eval I s.env v).map I.neg)
  | .jmp, [_] => s.jump i
  | .jmpt, [c, _] => s.jumpIf i ((eval I s.env c).map I.truth)
  | .jmpf, [c, _] => s.jumpIf i ((eval I s.env c).map fun v => !I.truth v)
  | .ret, [.none] => .halt (.returned none)
  | .ret, [v] =>
    match eval I s.env v with
    | some v => .halt (.returned (some v))
    | none => .stuck
  | opcode, [d, a, b] =>
    match binary? I opcode, eval I s.env a, eval I s.env b with
    | some operate, some a, some b => s.write d (some (operate a b))
    | _, _, _ => .stuck
  | _, _ => .stuck

def step (I : Interpretation V) (code : List Instruction) (s : State V) :
    Progress (State V) (Outcome V) :=
  match code[s.pc]? with
  | some i => execute I i s
  | none => .halt .ended

end PapyrusBackend.Semantics.Script
