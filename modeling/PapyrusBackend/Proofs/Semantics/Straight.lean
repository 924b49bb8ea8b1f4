import Mathlib.Logic.Function.Basic
import PapyrusBackend.Instruction
import PapyrusBackend.Proofs.Semantics.Interpretation

namespace PapyrusBackend.Semantics.Straight

/-- What the operations on values of type `V` may mean, with a store of type `H` for the members of
structs. -/
structure Operations (V H : Type) where
  literal : Value → V
  join : V → V → V
  read : H → V → String → V
  write : H → V → String → V → H
  compare : Comparison → V → V → V
  negate : V → V

structure State (V H : Type) where
  env : String → V
  heap : H

variable {V H : Type}

def Operations.joinAll (I : Operations V H) : List V → V
  | [] => I.literal (.string "")
  | first :: rest => rest.foldl I.join first

variable (I : Operations V H)

def eval (env : String → V) : Value → V
  | .reference name => env name
  | value => I.literal value

def State.assign (σ : State V H) (name : String) (v : V) : State V H :=
  { σ with env := Function.update σ.env name v }

@[simp] theorem State.assign_self (σ : State V H) (name : String) (v : V) :
    (σ.assign name v).env name = v := by
  simp only [assign, Function.update_self]

theorem State.assign_other (σ : State V H) {name other : String} (h : other ≠ name) (v : V) :
    (σ.assign name v).env other = σ.env other := by
  simp only [assign, Function.update_of_ne h]

def execute (i : Instruction) (σ : State V H) : Option (State V H) :=
  match i.opcode, i.arguments with
  | .assign, [.reference d, a] => some (σ.assign d (eval I σ.env a))
  | .not, [.reference d, a] => some (σ.assign d (I.negate (eval I σ.env a)))
  | .strcat, [.reference d, a, b] =>
    some (σ.assign d (I.join (eval I σ.env a) (eval I σ.env b)))
  | .structGet, [.reference d, a, .reference member] =>
    some (σ.assign d (I.read σ.heap (eval I σ.env a) member))
  | .structSet, [a, .reference member, b] =>
    some { σ with heap := I.write σ.heap (eval I σ.env a) member (eval I σ.env b) }
  | opcode, [.reference d, a, b] =>
    (Comparison.ofOpcode? opcode).map fun c =>
      σ.assign d (I.compare c (eval I σ.env a) (eval I σ.env b))
  | _, _ => none

def run : List Instruction → State V H → Option (State V H)
  | [], σ => some σ
  | i :: code, σ => (execute I i σ).bind (run code)

variable {I} {σ σ₁ σ₂ : State V H} {code rest : List Instruction}

theorem run_append (code rest : List Instruction) (σ : State V H) :
    run I (code ++ rest) σ = (run I code σ).bind (run I rest) := by
  induction code generalizing σ with
  | nil => rfl
  | cons i code ih =>
    rw [List.cons_append, run, run, Option.bind_assoc]
    exact Option.bind_congr fun σ₁ _ => ih σ₁

/-- Code runs from `σ` to `σ'`, and it changes no variable but those of `names`. -/
structure Changes (I : Operations V H) (code : List Instruction) (names : String → Prop)
    (σ σ' : State V H) : Prop where
  run : run I code σ = some σ'
  env : ∀ name, ¬names name → σ'.env name = σ.env name
  heap : σ'.heap = σ.heap

theorem Changes.nil (names : String → Prop) (σ : State V H) : Changes I [] names σ σ :=
  ⟨rfl, fun _ _ => rfl, rfl⟩

theorem Changes.assign {i : Instruction} {d : String} {v : V}
    (h : execute I i σ = some (σ.assign d v)) : Changes I [i] (· = d) σ (σ.assign d v) where
  run := by rw [Straight.run, h]; rfl
  env _ hname := σ.assign_other hname v
  heap := rfl

theorem changes_assign (d : String) (a : Value) (σ : State V H) :
    Changes I [.assign d a] (· = d) σ (σ.assign d (eval I σ.env a)) := .assign rfl

theorem changes_not (d : String) (a : Value) (σ : State V H) :
    Changes I [{ opcode := .not, arguments := [.reference d, a] }] (· = d) σ
      (σ.assign d (I.negate (eval I σ.env a))) := .assign rfl

theorem changes_strcat (d : String) (a b : Value) (σ : State V H) :
    Changes I [{ opcode := .strcat, arguments := [.reference d, a, b] }] (· = d) σ
      (σ.assign d (I.join (eval I σ.env a) (eval I σ.env b))) := .assign rfl

theorem changes_structGet (d : String) (a : Value) (member : String) (σ : State V H) :
    Changes I [.structGet d a member] (· = d) σ
      (σ.assign d (I.read σ.heap (eval I σ.env a) member)) := .assign rfl

theorem changes_comparison {opcode : Opcode} {c : Comparison}
    (h : Comparison.ofOpcode? opcode = some c) (d : String) (a b : Value) (σ : State V H) :
    Changes I [{ opcode, arguments := [.reference d, a, b] }] (· = d) σ
      (σ.assign d (I.compare c (eval I σ.env a) (eval I σ.env b))) := by
  apply Changes.assign
  cases opcode <;> cases h <;> rfl

theorem Changes.mono {names names' : String → Prop} (h : Changes I code names σ σ₁)
    (hnames : ∀ name, names name → names' name) : Changes I code names' σ σ₁ where
  run := h.run
  env name hname := h.env name (mt (hnames name) hname)
  heap := h.heap

theorem Changes.append {names : String → Prop} (h₁ : Changes I code names σ σ₁)
    (h₂ : Changes I rest names σ₁ σ₂) : Changes I (code ++ rest) names σ σ₂ where
  run := by rw [run_append, h₁.run]; exact h₂.run
  env name hname := (h₂.env name hname).trans (h₁.env name hname)
  heap := h₂.heap.trans h₁.heap

end PapyrusBackend.Semantics.Straight
