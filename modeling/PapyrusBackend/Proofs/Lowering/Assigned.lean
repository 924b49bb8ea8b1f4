import PapyrusBackend.Proofs.Lowering.Destinations

namespace PapyrusBackend

def Opcode.resultArgument? : Opcode → Option Nat
  | .nop | .jmp | .jmpt | .jmpf | .ret | .propSet | .arraySet | .structSet | .arrayAdd
  | .arrayInsert | .arrayRemoveLast | .arrayRemove | .arrayClear => none
  | .callMethod | .callStatic | .propGet => some 2
  | .callParent | .arrayFind | .arrayFindLast | .arrayFindStruct | .arrayFindLastStruct => some 1
  | _ => some 0

def Instruction.assigned (i : Instruction) : List String :=
  match i.opcode.resultArgument?.bind fun k => i.arguments[k]? with
  | some (.reference name) => [name]
  | _ => []

namespace Lowering

open Source

def assignedNames (code : List Instruction) : List String := code.flatMap Instruction.assigned

/-- A variable made up on the way: a temporary, or the one for what is not wanted. -/
def Scratch (name : String) : Prop :=
  (∃ k, name = Lower.temporaryName k) ∨ name = Lower.noneVariable.name

def Auxiliary (s : Simulation) (name : String) : Prop :=
  Scratch name ∨ ∃ join ∈ s.joins, ∃ v ∈ join.2, v.name = name

def ScratchCode (code : List Instruction) : Prop := ∀ name ∈ assignedNames code, Scratch name

theorem ScratchCode.nil : ScratchCode [] := fun _ hname => absurd hname List.not_mem_nil

theorem ScratchCode.append {code rest : List Instruction} (h : ScratchCode code)
    (hrest : ScratchCode rest) : ScratchCode (code ++ rest) := by
  intro name hname
  rw [assignedNames, List.flatMap_append, List.mem_append] at hname
  exact hname.elim (h name) (hrest name)

theorem ScratchCode.cons {i : Instruction} {rest : List Instruction}
    (h : ∀ name ∈ i.assigned, Scratch name) (hrest : ScratchCode rest) :
    ScratchCode (i :: rest) := by
  intro name hname
  rw [assignedNames, List.flatMap_cons, List.mem_append] at hname
  exact hname.elim (h name) (hrest name)

theorem scratch_temporary (k : Nat) : Scratch (Lower.temporaryName k) := .inl ⟨k, rfl⟩

def Item.isSound (item : Item) : Bool :=
  match item.content with
  | .comparison opcode _ _ => opcode ∈ [.cmpEq, .cmpLt, .cmpLe, .cmpGt, .cmpGe]
  | _ => true

def Sound (s : Simulation) : Prop := ∀ item ∈ s.stack, item.isSound = true

instance (s : Simulation) : Decidable (Sound s) :=
  inferInstanceAs (Decidable (∀ item ∈ s.stack, item.isSound = true))

structure Taken (n : Nat) (s t : Simulation) : Prop where
  stack : t.stack = s.stack.drop n
  joins : t.joins = s.joins

variable {f : Frame} {i : Instr} {m n : Nat} {s t u : Simulation} {code : List Instruction}

theorem Taken.refl (s : Simulation) : Taken 0 s s := ⟨rfl, rfl⟩

theorem Taken.trans (h₁ : Taken m s t) (h₂ : Taken n t u) : Taken (m + n) s u where
  stack := by rw [h₂.stack, h₁.stack, List.drop_drop]
  joins := by rw [h₂.joins, h₁.joins]

theorem Taken.sound (h : Taken n s t) (hs : Sound s) : Sound t := by
  intro item hitem
  rw [h.stack] at hitem
  exact hs item (List.mem_of_mem_drop hitem)

namespace Lower

theorem popMany_taken {items : List Item} (h : popMany f i n s = .ok items t) :
    Taken n s t ∧ ∀ item ∈ items, item ∈ s.stack := by
  obtain ⟨_, rfl, rfl⟩ := popMany_ok h
  exact ⟨⟨rfl, rfl⟩, fun item hitem => List.mem_of_mem_take (List.mem_reverse.1 hitem)⟩

theorem popOperand_taken {item : Item} (h : popOperand f i s = .ok item t) :
    Taken 1 s t ∧ item ∈ s.stack := by
  obtain ⟨rest, hstack, rfl⟩ := popOperand_ok h
  rw [hstack]
  exact ⟨⟨by rw [hstack]; rfl, rfl⟩, List.mem_cons_self⟩

theorem popPair_taken {a b : Item} (h : popPair f i s = .ok (a, b) t) :
    Taken 2 s t ∧ a ∈ s.stack ∧ b ∈ s.stack := by
  obtain ⟨rest, hstack, rfl⟩ := popPair_ok h
  rw [hstack]
  exact ⟨⟨by rw [hstack]; rfl, rfl⟩, List.mem_cons_of_mem b List.mem_cons_self, List.mem_cons_self⟩

theorem popTriple_taken {a b c : Item} (h : popTriple f i s = .ok (a, b, c) t) :
    Taken 3 s t ∧ a ∈ s.stack ∧ b ∈ s.stack ∧ c ∈ s.stack := by
  obtain ⟨popped, t', hpop, hitems⟩ := bind_ok h
  obtain ⟨_, hpopped, rfl⟩ := popOperands_ok hpop
  split at hitems
  · cases hitems
    have hmem : ∀ item ∈ [a, b, c], item ∈ s.stack := fun item hitem =>
      List.mem_of_mem_take (List.mem_reverse.1 (hpopped ▸ hitem))
    exact ⟨⟨rfl, rfl⟩, by simpa using hmem⟩
  · exact absurd hitems underflow_fails

/-- Code that gets something ready: it leaves the stack alone and assigns scratch variables only. -/
structure Ready (s : Simulation) (code : List Instruction) (t : Simulation) : Prop where
  taken : Taken 0 s t
  scratch : ScratchCode code

theorem Ready.trans {rest : List Instruction} (h₁ : Ready s code t) (h₂ : Ready t rest u) :
    Ready s (code ++ rest) u :=
  ⟨h₁.taken.trans h₂.taken, h₁.scratch.append h₂.scratch⟩

theorem assigned_result {opcode : Opcode} (h : opcode.resultArgument? = some 0) (v : Variable)
    (arguments : List Value) :
    Instruction.assigned { opcode, arguments := v.value :: arguments } = [v.name] := by
  simp only [Instruction.assigned, h]
  rfl

theorem temporary_ok {type : String} {v : Variable} (h : temporary type s = .ok v t) :
    Taken 0 s t ∧ v.name = temporaryName s.temporaries := by
  cases h
  exact ⟨⟨rfl, rfl⟩, rfl⟩

theorem materialize_ok {opcode : Opcode} {lhs rhs : Value} {staged : Staged}
    (hopcode : opcode.resultArgument? = some 0) (h : materialize opcode lhs rhs s = .ok staged t) :
    Ready s staged.code t ∧ staged.value = .reference (temporaryName s.temporaries) := by
  cases h
  refine ⟨⟨⟨rfl, rfl⟩, .cons ?_ .nil⟩, rfl⟩
  intro name hname
  simp only [Instruction.assigned, hopcode] at hname
  cases List.mem_singleton.1 hname
  exact scratch_temporary s.temporaries

theorem takeInverted_taken {inverted : Bool} (h : takeInverted s = .ok inverted t) :
    Taken 0 s t := by
  cases h
  exact ⟨rfl, rfl⟩

theorem isSound_comparison {item : Item} (hitem : item.isSound = true) {opcode : Opcode}
    {lhs rhs : Value} (h : item.content = .comparison opcode lhs rhs) :
    opcode.resultArgument? = some 0 := by
  simp only [Item.isSound, h, decide_eq_true_eq] at hitem
  cases opcode <;> revert hitem <;> decide

theorem Stages.taken {item : Item} {staged : Staged} (h : Stages s item staged t) :
    Taken 0 s t := by
  cases h with
  | member _ _ hv =>
    cases hv
    exact ⟨rfl, rfl⟩
  | comparison _ _ hv =>
    cases hv
    exact ⟨rfl, rfl⟩
  | _ => exact .refl _

/-- All that staging assigns is the next temporary. -/
theorem Stages.assigned {item : Item} (hitem : item.isSound = true) {staged : Staged}
    (h : Stages s item staged t) {name : String} (hname : name ∈ assignedNames staged.code) :
    name = temporaryName s.temporaries ∧ t.temporaries = s.temporaries + 1 := by
  cases h with
  | member _ _ hv =>
    cases hv
    exact ⟨List.mem_singleton.1 hname, rfl⟩
  | comparison _ hcontent hv =>
    refine ⟨?_, by cases hv; rfl⟩
    rw [assignedNames, List.flatMap_cons, assigned_result (isSound_comparison hitem hcontent),
      (temporary_ok hv).2] at hname
    obtain hname | hname := List.mem_cons.1 hname
    · exact hname
    · cases hinverted : s.inverted with
      | false =>
        rw [hinverted] at hname
        cases hname
      | true =>
        rw [hinverted] at hname
        exact (List.mem_singleton.1 hname).trans (temporary_ok hv).2
  | _ => cases hname

theorem stage_ok {item : Item} (hitem : item.isSound = true) {staged : Staged}
    (h : stage item s = .ok staged t) : Ready s staged.code t := by
  have hstages := stage_stages h
  refine ⟨hstages.taken, fun name hname => ?_⟩
  rw [(hstages.assigned hitem hname).1]
  exact scratch_temporary s.temporaries

theorem stagePair_ok {a b : Item} (ha : a.isSound = true) (hb : b.isSound = true)
    {lhs rhs : Value} (h : stagePair a b s = .ok (code, lhs, rhs) t) : Ready s code t := by
  obtain ⟨first, t', hfirst, h⟩ := bind_ok h
  obtain ⟨second, t'', hsecond, h⟩ := bind_ok h
  cases h
  exact (stage_ok ha hfirst).trans (stage_ok hb hsecond)

theorem stageAll_ok {items : List Item} (hitems : ∀ item ∈ items, item.isSound = true)
    {values : List Value} (h : stageAll items s = .ok (code, values) t) : Ready s code t := by
  induction items generalizing s t code values with
  | nil =>
    cases h
    exact ⟨.refl s, .nil⟩
  | cons item items ih =>
    obtain ⟨hitem, hrest⟩ := List.forall_mem_cons.1 hitems
    obtain ⟨first, t', hfirst, h⟩ := bind_ok h
    obtain ⟨⟨code', values'⟩, t'', hothers, h⟩ := bind_ok h
    cases h
    exact (stage_ok hitem hfirst).trans (ih hrest hothers)

/-- An assignment takes nothing from the stack, and what it assigns besides its variable is
scratch. -/
theorem assign_ok {v : Variable} {item : Item} (hitem : item.isSound = true)
    (h : assign f v item s = .ok code t) :
    Taken 0 s t ∧ ∀ name ∈ assignedNames code, Scratch name ∨ v.name = name := by
  obtain ⟨staged, t', hstaged, h⟩ := bind_ok h
  have hready := stage_ok hitem hstaged
  cases h
  refine ⟨hready.taken, fun name hname => ?_⟩
  rw [assignedNames, List.flatMap_append, List.mem_append] at hname
  obtain hname | hname := hname
  · exact .inl (hready.scratch name hname)
  · exact .inr (List.mem_singleton.1 hname).symm

end Lower

def Destination.before : Destination → List Instruction
  | .member _ _ _ before => before
  | _ => []

def holderCount (f : Frame) : Nat :=
  match f.next? with
  | some next => if next.code = .stfld then 1 else 0
  | none => 0

/-- A destination is a scratch variable, or else that of the store which follows. -/
inductive Settled (f : Frame) (s : Simulation) (d : Destination) (t : Simulation) : Prop
  | scratch (hname : Scratch d.written.name) (hbefore : ScratchCode d.before)
  | store (v : Variable) (hd : d = .store v) (htaken : Taken (holderCount f) s t)

namespace Lower

theorem holderCount_of_ne {next : Instr} (hnext : f.next? = some next)
    (hcode : next.code ≠ .stfld) : holderCount f = 0 := by
  simp only [holderCount, hnext, if_neg hcode]

theorem destination_settled (hs : Sound s) {type : String}
    {d : Destination} (h : destination f type s = .ok d t) : Settled f s d t := by
  cases destination_directs h with
  | discard _ hv =>
    cases hv
    exact .scratch (.inr rfl) .nil
  | push hv =>
    cases hv
    exact .scratch (scratch_temporary s.temporaries) .nil
  | store hfollows hcode =>
    refine .store _ rfl ⟨?_, rfl⟩
    rw [holderCount_of_ne hfollows.next hcode]
    rfl
  | field hfollows hcode _ hstack _ =>
    refine .store _ rfl ⟨?_, rfl⟩
    simp only [holderCount, hfollows.next, hcode, if_true, hstack, List.drop_succ_cons,
      List.drop_zero]
  | member _ _ _ hstack _ hstage hv =>
    cases hv
    have hstaged := stage_ok (hs _ (hstack ▸ List.mem_cons_self)) hstage
    exact .scratch (scratch_temporary _) hstaged.scratch

end Lower

end Lowering

end PapyrusBackend
