import PapyrusBackend.Proofs.Lowering.Evolution
import PapyrusBackend.Proofs.Lowering.Spared

namespace PapyrusBackend.Lowering

open Source

/-- Code that assigns items to variables in turn, each one staged in the simulation that the one in
front of it leaves and then coerced to the type of its variable. -/
inductive Carries (coerce : String → Value → Value) :
    Simulation → List Variable → List Item → List Instruction → Simulation → Prop
  | nil {s : Simulation} : Carries coerce s [] [] [] s
  | cons {v : Variable} {vs : List Variable} {item : Item} {items : List Item}
      {staged : Lower.Staged} {code : List Instruction} {s t u : Simulation}
      (hstage : Lower.Stages s item staged t) (hrest : Carries coerce t vs items code u) :
      Carries coerce s (v :: vs) (item :: items)
        (staged.code ++ .assign v.name (coerce v.type staged.value) :: code) u

def flowWarning (offset : UInt32) (count expected : Nat) : String :=
  toString count ++ " stack items flow into IL_" ++ Text.hexPadded 4 offset.toNat ++
    ", which expects " ++ toString expected

inductive Spilled (f : Frame) (offset : UInt32) (keep : Bool) (s : Simulation) :
    List Instruction → Simulation → Prop
  | nothing (h : s.stack = []) : Spilled f offset keep s [] s
  | refused {slots : List Variable} (h : s.joins.lookup offset = some slots)
      (hlength : slots.length ≠ s.stack.length) :
      Spilled f offset keep s []
        { s with warnings := s.warnings ++ [flowWarning offset s.stack.length slots.length] }
  | carried {slots : List Variable} {code : List Instruction} {t u v : Simulation}
      (hitems : s.stack ≠ [])
      (hjoin : Lower.joinVariables offset s.stack.reverse s = .ok (some slots) u)
      (hcode : Carries f.coerce { u with stack := [] } slots s.stack.reverse code v)
      (hstack : t.stack = if keep = true then Lower.joined slots else [])
      (hskip : t.skipNext = s.skipNext)
      (hlookup : t.joins.lookup offset = some slots)
      (hothers : ∀ other, other ≠ offset → t.joins.lookup other = s.joins.lookup other) :
      Spilled f offset keep s code t

variable {f : Frame} {i : Instr} {s : Simulation} {offset : UInt32} {keep : Bool}

theorem Carries.length_eq {coerce : String → Value → Value} {slots : List Variable}
    {items : List Item} {code : List Instruction} {t : Simulation}
    (h : Carries coerce s slots items code t) :
    slots.length = items.length := by
  induction h with
  | nil => rfl
  | cons _ _ ih => rw [List.length_cons, List.length_cons, ih]

namespace Lower

theorem assignAll_carries {slots : List Variable} {items : List Item}
    (h : slots.length = items.length) (s : Simulation) :
    ∃ code t, assignAll f slots items s = .ok code t ∧ Carries f.coerce s slots items code t ∧
      t.stack = s.stack ∧ Spares s t := by
  induction slots generalizing items s with
  | nil =>
    rw [List.length_nil, eq_comm, List.length_eq_zero_iff] at h
    subst h
    exact ⟨[], s, rfl, .nil, rfl, .refl s⟩
  | cons v slots ih =>
    cases items with
    | nil => cases h
    | cons item items =>
      obtain ⟨staged, t, hstage, hstack, hspares⟩ := calm_stage item s
      obtain ⟨code, u, hrest, hcarries, hstack', hspares'⟩ := ih (Nat.succ.inj h) t
      have hassign : assign f v item s =
          .ok (staged.code ++ [.assign v.name (f.coerce v.type staged.value)]) t := by
        rw [assign, bind_run hstage]
        rfl
      refine ⟨_, u, ?_, .cons (stage_stages hstage) hcarries, hstack'.trans hstack,
        hspares.trans hspares'⟩
      rw [assignAll, bind_run hassign, bind_run hrest, List.append_assoc]
      rfl

theorem spill_nil (h : s.stack = []) : spill f offset keep s = .ok [] s := by
  rw [spill, get_bind, h]
  rfl

theorem not_isEmpty_reverse (h : s.stack ≠ []) : ¬s.stack.reverse.isEmpty = true := by
  rw [List.isEmpty_reverse, List.isEmpty_iff]
  exact h

theorem spill_refused {u : Simulation} (h : s.stack ≠ [])
    (hjoin : joinVariables offset s.stack.reverse s = .ok none u) :
    spill f offset keep s = .ok [] u := by
  rw [spill, get_bind, if_neg (not_isEmpty_reverse h), bind_run hjoin]
  rfl

/-- Items for which there are variables are assigned to them. -/
theorem spill_slots {slots : List Variable} {u : Simulation} (h : s.stack ≠ [])
    (hjoin : joinVariables offset s.stack.reverse s = .ok (some slots) u)
    (hlength : slots.length = s.stack.length) :
    ∃ code t v, spill f offset keep s = .ok code t ∧
      Carries f.coerce { u with stack := [] } slots s.stack.reverse code v ∧
      t.stack = (if keep = true then joined slots else []) ∧ Spares u t := by
  have hclear : (modify fun s => { s with stack := [] } : Lower PUnit) u =
      .ok () { u with stack := [] } := rfl
  obtain ⟨code, t, hassign, hcarries, hstack, hspares⟩ :=
    assignAll_carries (f := f) (hlength.trans List.length_reverse.symm) { u with stack := [] }
  have hspares' : Spares u t := ⟨hspares.skipNext, hspares.locals, hspares.joins⟩
  rw [spill, get_bind, if_neg (not_isEmpty_reverse h), bind_run hjoin]
  dsimp only
  rw [bind_run hclear, bind_run hassign]
  cases keep with
  | true =>
    exact ⟨code, { t with stack := joined slots }, t, rfl, hcarries, rfl, hspares'.skipNext,
      hspares'.locals, hspares'.joins⟩
  | false => exact ⟨code, t, t, rfl, hcarries, hstack, hspares'⟩

theorem joinVariables_known {slots : List Variable} {items : List Item}
    (h : s.joins.lookup offset = some slots) (hlength : slots.length = items.length) :
    joinVariables offset items s = .ok (some slots) s := by
  rw [joinVariables, get_bind, h]
  dsimp only
  rw [if_pos hlength]
  rfl

theorem joinVariables_refused {slots : List Variable} {items : List Item}
    (h : s.joins.lookup offset = some slots) (hlength : slots.length ≠ items.length) :
    joinVariables offset items s = .ok none
      { s with warnings := s.warnings ++ [flowWarning offset items.length slots.length] } := by
  rw [joinVariables, get_bind, h]
  dsimp only
  rw [if_neg hlength]
  rfl

theorem joinVariables_new (h : s.joins.lookup offset = none) (items : List Item) :
    ∃ slots t, joinVariables offset items s = .ok (some slots) t ∧ slots.length = items.length ∧
      t.joins = (offset, slots) :: s.joins ∧ t.skipNext = s.skipNext := by
  rw [joinVariables, get_bind, h]
  dsimp only
  rw [bind_run (freshVariables_run _ s)]
  refine ⟨_, _, rfl, ?_, rfl, rfl⟩
  rw [length_temporariesFrom, List.length_map]

theorem spill_spilled (f : Frame) (offset : UInt32) (keep : Bool) (s : Simulation) :
    ∃ code t, spill f offset keep s = .ok code t ∧ Spilled f offset keep s code t := by
  by_cases hitems : s.stack = []
  · exact ⟨[], s, spill_nil hitems, .nothing hitems⟩
  cases hlookup : s.joins.lookup offset with
  | some slots =>
    by_cases hlength : slots.length = s.stack.reverse.length
    · have hjoin := joinVariables_known hlookup hlength
      rw [List.length_reverse] at hlength
      obtain ⟨code, t, _, hrun, hcarries, hstack, hspares⟩ := spill_slots hitems hjoin hlength
      refine ⟨code, t, hrun,
        .carried hitems hjoin hcarries hstack hspares.skipNext ?_ fun _ _ => ?_⟩
      · rw [hspares.joins, hlookup]
      · rw [hspares.joins]
    · have hjoin := joinVariables_refused hlookup hlength
      rw [List.length_reverse] at hlength hjoin
      exact ⟨[], _, spill_refused hitems hjoin, .refused hlookup hlength⟩
  | none =>
    -- the first flow to an offset makes its variables
    obtain ⟨slots, u, hjoin, hlength, hjoins, hskip⟩ := joinVariables_new hlookup s.stack.reverse
    rw [List.length_reverse] at hlength
    obtain ⟨code, t, _, hrun, hcarries, hstack, hspares⟩ := spill_slots hitems hjoin hlength
    refine ⟨code, t, hrun, .carried hitems hjoin hcarries hstack (hspares.skipNext.trans hskip) ?_
      fun other hother => ?_⟩
    · rw [hspares.joins, hjoins, List.lookup_cons_self]
    · rw [hspares.joins, hjoins, List.lookup_cons, beq_false_of_ne hother]

end Lower

theorem Spilled.skipNext {code : List Instruction} {t : Simulation}
    (h : Spilled f offset keep s code t) : t.skipNext = s.skipNext := by
  cases h with
  | nothing => rfl
  | refused => rfl
  | carried _ _ _ _ hskip _ _ => exact hskip

/-- What a branch does before the items that it leaves on the stack flow on: it takes its operands
and gets its condition ready. -/
inductive Decides (i : Instr) (s : Simulation) : List Instruction → Simulation → Prop
  | always (hcode : i.code = .br) : Decides i s [] s
  | truth {item : Item} {rest : Stack} {expected : Bool} {condition : Lower.Staged × Bool}
      {t : Simulation}
      (hcode : i.code = .brtrue ∧ expected = true ∨ i.code = .brfalse ∧ expected = false)
      (hstack : s.stack = item :: rest)
      (hstage : Lower.stageCondition item expected { s with stack := rest } = .ok condition t) :
      Decides i s condition.1.code t
  | comparison {a b : Item} {rest : Stack} {opcode : Opcode} {expected : Bool}
      {operands : List Instruction × Value × Value} {made : Lower.Staged} {t u : Simulation}
      (hcode : Lower.branchOpcode? i.code = some (opcode, expected))
      (hstack : s.stack = b :: a :: rest)
      (hstage : Lower.stagePair a b { s with stack := rest } = .ok operands t)
      (hmade : Lower.materialize opcode operands.2.1 operands.2.2 t = .ok made u) :
      Decides i s (operands.1 ++ made.code) u

/-- How a branch ends that decides by `head`: what is left on the stack flows to the offset in front
of the jump. -/
def Flows (f : Frame) (want : Fault → Simulation → Prop) (offset : UInt32) (keep : Bool)
    (head : List Instruction → Simulation → Prop) (s : Simulation)
    (x : Lower (List Instruction)) : Prop :=
  Finishes (fun code t => ∃ front carried jump u, code = front ++ carried ++ [jump] ∧
    jump.target = some (.source offset) ∧ head front u ∧ Spilled f offset keep u carried t) want s x

variable {want : Fault → Simulation → Prop} {head : List Instruction → Simulation → Prop}

theorem pop_of_branchOpcode? {c : Code} {found : Opcode × Bool}
    (h : Lower.branchOpcode? c = some found) : c.defaultPop.count 0 0 = 2 := by
  cases c <;> first | rfl | cases h

theorem Decides.spares {front : List Instruction} {u : Simulation} (h : Decides i s front u) :
    Spares s u ∧ u.stack = s.stack.drop (i.code.defaultPop.count 0 0) := by
  cases h with
  | always hcode =>
    rw [hcode]
    exact ⟨.refl s, rfl⟩
  | truth hcode hstack hstage =>
    obtain ⟨hkept, hspares⟩ := (Lower.calm_stageCondition _ _).ok hstage
    refine ⟨⟨hspares.skipNext, hspares.locals, hspares.joins⟩, ?_⟩
    rw [hkept, hstack]
    obtain ⟨hcode, _⟩ | ⟨hcode, _⟩ := hcode <;> rw [hcode] <;> rfl
  | comparison hcode hstack hstage hmade =>
    obtain ⟨hkept, hspares⟩ := (Lower.calm_stagePair _ _).ok hstage
    obtain ⟨hkept', hspares'⟩ := (Lower.calm_materialize _ _ _).ok hmade
    have hboth := hspares.trans hspares'
    refine ⟨⟨hboth.skipNext, hboth.locals, hboth.joins⟩, ?_⟩
    rw [hkept', hkept, hstack, pop_of_branchOpcode? hcode]
    rfl

theorem Flows.bind {x : Lower α} {k : α → Lower (List Instruction)} (hx : Spared want s x)
    (hk : ∀ a t, x s = .ok a t → Flows f want offset keep head t (k a)) :
    Flows f want offset keep head s (x >>= k) :=
  Finishes.bind hx fun a t hrun _ => hk a t hrun

theorem Flows.last (front : List Instruction) {jump : Instruction}
    (htarget : jump.target = some (.source offset)) (hhead : head front s) :
    Flows f want offset keep head s (do
      let carried ← Lower.spill f offset keep
      return front ++ carried ++ [jump]) := by
  obtain ⟨carried, t, hrun, hspilled⟩ := Lower.spill_spilled f offset keep s
  rw [Flows, Finishes, bind_run hrun]
  exact ⟨front, carried, jump, s, rfl, htarget, hhead, hspilled⟩

namespace Lower

theorem flows_branchOnTruth {expected : Bool}
    (hcode : i.code = .brtrue ∧ expected = true ∨ i.code = .brfalse ∧ expected = false)
    (offset : UInt32) :
    Flows f (Wanting f i s) offset true (Decides i s) s (branchOnTruth f i offset expected) := by
  refine .bind spared_popOperand fun item t hpop => ?_
  obtain ⟨rest, hstack, rfl⟩ := popOperand_ok hpop
  refine .bind (calm_stageCondition item expected).spared fun condition _ hstage => ?_
  exact .last condition.1.code rfl (.truth hcode hstack hstage)

theorem flows_branchOnComparison (offset : UInt32) :
    Flows f (Wanting f i s) offset true (Decides i s) s (branchOnComparison f i offset) := by
  rw [branchOnComparison]
  split
  · exact Finishes.throw rfl
  · next opcode expected hcode =>
    refine .bind spared_popPair fun pair t hpop => ?_
    obtain ⟨rest, hstack, rfl⟩ := popPair_ok hpop
    refine .bind (calm_stagePair pair.1 pair.2).spared fun operands t hstage => ?_
    refine .bind (calm_materialize opcode operands.2.1 operands.2.2).spared fun made _ hmade => ?_
    exact .last (operands.1 ++ made.code) rfl (.comparison hcode hstack hstage hmade)

/-- Only an unconditional branch leaves the stack empty. -/
theorem flows_branch (hcategory : i.code.category = .branch) (htarget : i.target? = some offset) :
    Flows f (Wanting f i s) offset (i.code != .br) (Decides i s) s (branch f i) := by
  refine .bind (spared_need _ _) fun _ _ hneed => ?_
  obtain ⟨hsame, rfl⟩ := need_ok hneed
  cases hsame.symm.trans htarget
  cases hcode : i.code with
  | br => exact .last [] rfl (.always hcode)
  | brtrue => exact flows_branchOnTruth (.inl ⟨hcode, rfl⟩) offset
  | brfalse => exact flows_branchOnTruth (.inr ⟨hcode, rfl⟩) offset
  | beq | bneUn | bgt | bgtUn | bge | bgeUn | blt | bltUn | ble | bleUn =>
    exact flows_branchOnComparison offset
  | _ =>
    rw [hcode] at hcategory
    cases hcategory

theorem branch_flows {code : List Instruction} {t : Simulation}
    (hcategory : i.code.category = .branch) (h : branch f i s = .ok code t) :
    ∃ offset front carried jump u, i.target? = some offset ∧ code = front ++ carried ++ [jump] ∧
      jump.target = some (.source offset) ∧ Decides i s front u ∧
      Spilled f offset (i.code != .br) u carried t := by
  obtain ⟨offset, _, hneed, _⟩ := bind_ok h
  obtain ⟨htarget, _⟩ := need_ok hneed
  have hflows := flows_branch (f := f) (s := s) hcategory htarget
  rw [Flows, Finishes, h] at hflows
  obtain ⟨front, carried, jump, u, hcode, hjump, hdecides, hspilled⟩ := hflows
  exact ⟨offset, front, carried, jump, u, htarget, hcode, hjump, hdecides, hspilled⟩

theorem branch_fails {fault : Fault} {t : Simulation} (hcategory : i.code.category = .branch)
    (h : branch f i s = .error fault t) :
    t.skipNext = s.skipNext ∧ (fault.isLocal = true → Wanting f i s fault t) := by
  cases htarget : i.target? with
  | none =>
    rw [branch, htarget] at h
    cases h
    exact ⟨rfl, fun hlocal => absurd hlocal Bool.false_ne_true⟩
  | some offset =>
    have hflows := flows_branch (f := f) (s := s) hcategory htarget
    rw [Flows, Finishes, h] at hflows
    exact hflows

end Lower

end PapyrusBackend.Lowering
