import PapyrusBackend.Proofs.Lowering.Absorption
import PapyrusBackend.Proofs.Lowering.Leniency
import PapyrusBackend.Proofs.Lowering.WellFormed

namespace PapyrusBackend.Lowering

open Source

variable {s t : Simulation} {offset : UInt32} {slots : List Variable}

theorem Change.lookup (h : Change s t) (hslots : s.joins.lookup offset = some slots) :
    t.joins.lookup offset = some slots := by
  cases h with
  | @join other hnew types =>
    have hne : offset ≠ other := by
      rintro rfl
      rw [hnew] at hslots
      cases hslots
    rw [List.lookup_cons, beq_false_of_ne hne]
    exact hslots
  | _ => exact hslots

/-- The variables of a join stay the same. -/
theorem Becomes.lookup (h : Becomes s t) (hslots : s.joins.lookup offset = some slots) :
    t.joins.lookup offset = some slots := by
  induction h with
  | refl => exact hslots
  | tail _ hchange ih => exact hchange.lookup ih

theorem Becomes.temporaries (h : Becomes s t) : s.temporaries ≤ t.temporaries := by
  induction h with
  | refl => exact Nat.le_refl _
  | tail _ hchange ih =>
    refine Nat.le_trans ih ?_
    cases hchange with
    | temporary => exact Nat.le_succ _
    | join => exact Nat.le_add_right _ _
    | _ => exact Nat.le_refl _

theorem Becomes.variables (h : Becomes s t) : s.variables <+: t.variables := by
  induction h with
  | refl => exact List.prefix_refl _
  | tail _ hchange ih =>
    refine ih.trans ?_
    cases hchange with
    | temporary => exact List.prefix_append _ _
    | noneVariable => exact List.prefix_append _ _
    | join => exact List.prefix_append _ _
    | _ => exact List.prefix_refl _

/-- The variables of a join are temporaries, made when items first flow to its offset. -/
theorem Becomes.exists_temporaries (h : Becomes s t) (hnone : s.joins.lookup offset = none)
    (hslots : t.joins.lookup offset = some slots) :
    ∃ k types, s.temporaries ≤ k ∧ slots = temporariesFrom k types ∧
      ∀ v ∈ slots, v.declaration ∈ t.variables := by
  induction h with
  | refl =>
    rw [hnone] at hslots
    cases hslots
  | @tail u t hbecomes hchange ih =>
    -- the join is made by the last change or by one before it
    cases hlookup : u.joins.lookup offset with
    | some earlier =>
      cases (hchange.lookup hlookup).symm.trans hslots
      obtain ⟨k, types, hle, htypes, hdeclared⟩ := ih hlookup
      have hkept : u.variables <+: t.variables := Becomes.variables (.single hchange)
      exact ⟨k, types, hle, htypes, fun v hv => hkept.subset (hdeclared v hv)⟩
    | none =>
      cases hchange with
      | @join other hnew types =>
        rw [List.lookup_cons] at hslots
        split at hslots
        · cases hslots
          exact ⟨u.temporaries, types, Becomes.temporaries hbecomes, rfl, fun v hv =>
            List.mem_append_right _ (List.mem_map_of_mem hv)⟩
        · rw [hlookup] at hslots
          cases hslots
      | _ =>
        rw [hlookup] at hslots
        cases hslots

variable {setting : Setting} {m : MethodDecl}

/-- What more of a run does to the simulation. -/
theorem visitAll_becomes {f : Frame} {policy : Policy} {instrs rest : List Instr}
    {before segments : List Segment} {start : Simulation}
    (hfirst : Lower.visitAll f policy 0 0 instrs start = .ok before s)
    (h : Lower.visitAll f policy 0 0 (instrs ++ rest) start = .ok segments t) : Becomes s t := by
  obtain ⟨line, first, others, u, hfirst', hothers, _⟩ := Lower.visitAll_append h
  cases hfirst'.symm.trans hfirst
  have hrest : Evolves s (Lower.visitAll f policy (0 + instrs.length) line rest) :=
    Lower.evolves_visitAll policy _ line rest
  rw [Evolves, hothers] at hrest
  exact hrest

theorem runTo_becomes {p q : Nat} (hpq : p ≤ q) {before before' : List Segment}
    (hp : runTo setting m p = .ok before s) (hq : runTo setting m q = .ok before' t) :
    Becomes s t := by
  have htake : m.body.take q = m.body.take p ++ (m.body.take q).drop p := by
    conv_lhs => rw [← List.take_append_drop p (m.body.take q), List.take_take, Nat.min_eq_left hpq]
  rw [runTo, htake] at hq
  exact visitAll_becomes hp hq

theorem runTo_becomes_last {p : Nat} {before segments : List Segment}
    (hp : runTo setting m p = .ok before s)
    (h : Lower.visitAll (setting.frame m) setting.policy 0 0 m.body
      (.start m setting.owner.delegateBindings) = .ok segments t) : Becomes s t := by
  rw [← List.take_append_drop p m.body] at h
  exact visitAll_becomes hp h

inductive Entered (f : Frame) (offset : UInt32) (s : Simulation) :
    List Instruction → Simulation → Prop
  | unjoined (h : s.joins.lookup offset = none) : Entered f offset s [] s
  | empty {slots : List Variable} (h : s.joins.lookup offset = some slots) (hstack : s.stack = []) :
      Entered f offset s [] { s with stack := Lower.joined slots }
  | spilled {slots : List Variable} {entry : List Instruction} {t : Simulation}
      (h : s.joins.lookup offset = some slots) (hstack : s.stack ≠ [])
      (hspilled : Spilled f offset true s entry t) (hkept : t.joins.lookup offset = some slots) :
      Entered f offset s entry t

variable {f : Frame} {entry : List Instruction}

theorem enter_entered (h : Lower.enter f offset s = .ok entry t) : Entered f offset s entry t := by
  rw [Lower.enter, get_bind] at h
  cases hslots : s.joins.lookup offset with
  | none =>
    rw [hslots] at h
    cases h
    exact .unjoined hslots
  | some slots =>
    rw [hslots] at h
    dsimp only at h
    by_cases hstack : s.stack = []
    · rw [if_pos (List.isEmpty_iff.2 hstack)] at h
      cases h
      exact .empty hslots hstack
    · rw [if_neg fun hempty => hstack (List.isEmpty_iff.1 hempty)] at h
      obtain ⟨_, _, hspill, hspilled⟩ := Lower.spill_spilled f offset true s
      cases hspill.symm.trans h
      have hevolves : Evolves s (Lower.spill f offset true) := Lower.evolves_spill offset true
      rw [Evolves, h] at hevolves
      exact .spilled hslots hstack hspilled (Becomes.lookup hevolves hslots)

/-- The stack of a join is that of its variables, unless there was a warning. -/
theorem Entered.joined (h : Entered f offset s entry t)
    (hslots : s.joins.lookup offset = some slots)
    (hquiet : ∀ count expected, flowWarning offset count expected ∉ t.warnings) :
    t.stack = Lower.joined slots ∧ (s.stack = [] → entry = []) ∧
      (s.stack ≠ [] →
        ∃ u, Carries f.coerce { s with stack := [] } slots s.stack.reverse entry u) := by
  cases h with
  | unjoined hnone =>
    rw [hnone] at hslots
    cases hslots
  | empty hslots' hstack =>
    cases hslots'.symm.trans hslots
    exact ⟨rfl, fun _ => rfl, fun hne => absurd hstack hne⟩
  | spilled hslots' hstack hspilled hkept =>
    cases hslots'.symm.trans hslots
    cases hspilled with
    | nothing hnil => exact absurd hnil hstack
    | refused _ _ => exact absurd (List.mem_append_right _ List.mem_cons_self) (hquiet _ _)
    | carried _ hjoin hcode hjoined _ hlookup _ =>
      cases hlookup.symm.trans hkept
      -- the variables are there already, so that none are made
      have hlength := hcode.length_eq
      cases (Lower.joinVariables_known hslots hlength).symm.trans hjoin
      exact ⟨hjoined, fun hnil => absurd hnil hstack, fun _ => ⟨_, hcode⟩⟩

theorem Entered.unjoined_eq (h : Entered f offset s entry t)
    (hnone : s.joins.lookup offset = none) : t = s := by
  cases h with
  | unjoined _ => rfl
  | empty hslots _ => cases hnone.symm.trans hslots
  | spilled hslots _ _ _ => cases hnone.symm.trans hslots

theorem Entered.skipNext (h : Entered f offset s entry t) : t.skipNext = s.skipNext := by
  cases h with
  | unjoined _ => rfl
  | empty _ _ => rfl
  | spilled _ _ hspilled _ => exact hspilled.skipNext

/-- Only branches add joins. -/
theorem Entered.lookup (h : Entered f offset s entry t) (other : UInt32) :
    t.joins.lookup other = s.joins.lookup other := by
  cases h with
  | unjoined _ => rfl
  | empty _ _ => rfl
  | spilled hslots hstack hspilled hkept =>
    cases hspilled with
    | nothing _ => rfl
    | refused _ _ => rfl
    | carried _ _ _ _ _ _ hothers =>
      by_cases hother : other = offset
      · rw [hother, hkept, hslots]
      · exact hothers other hother

/-- A join is added by a branch that leaves items on the stack. -/
theorem step_adds_join {i : Instr} {code : List Instruction} (h : Lower.step f i s = .ok code t)
    (hnone : s.joins.lookup offset = none) (hslots : t.joins.lookup offset = some slots) :
    i.code.category = .branch ∧ i.target? = some offset ∧
      s.stack.drop (i.code.defaultPop.count 0 0) ≠ [] := by
  by_cases hbranch : i.code.category = .branch
  · rw [Lower.step, hbranch] at h
    obtain ⟨other, _, _, _, u, htarget, _, _, hdecides, hspilled⟩ :=
      Lower.branch_flows hbranch h
    obtain ⟨hspares, hstack⟩ := hdecides.spares
    rw [← hspares.joins] at hnone
    cases hspilled with
    | nothing _ => cases hnone.symm.trans hslots
    | refused _ _ => cases hnone.symm.trans hslots
    | carried hitems _ _ _ _ _ hothers =>
      rw [hstack] at hitems
      by_cases hother : offset = other
      · rw [hother]
        exact ⟨hbranch, htarget, hitems⟩
      · cases ((hothers offset hother).trans hnone).symm.trans hslots
  · rw [Lower.step_joins hbranch h] at hslots
    cases hnone.symm.trans hslots

theorem Wanting.joins {i : Instr} {fault : Fault} (h : Wanting f i s fault t) :
    t.joins = s.joins := by
  cases h <;> rfl

theorem lowerMethod_run {result : LoweredMethod} (hnative : m.isNative = false)
    (h : lowerMethod setting m = .ok result) :
    ∃ segments last, Lower.visitAll (setting.frame m) setting.policy 0 0 m.body
        (.start m setting.owner.delegateBindings) = .ok segments last ∧
      result.method.body.variables = last.variables ∧
      result.warnings = last.warnings ++ leftovers last.stack := by
  rw [lowerMethod, if_neg (Bool.eq_false_iff.1 hnative)] at h
  obtain ⟨segments, last, hvisit, hresult⟩ := lowerCode_ok h
  cases hresult
  exact ⟨segments, last, hvisit, rfl, rfl⟩

theorem stateAt?_of_enter {q : Nat} {i : Instr} (hi : m.body[q]? = some i) {before : List Segment}
    (hbefore : runTo setting m q = .ok before s) (hskip : s.skipNext = false)
    (hentry : Lower.enter { setting.frame m with position := q } i.offset
      { s with skipTo := none } = .ok entry t) : stateAt? setting m q = some t := by
  rw [stateAt?, hbefore, hi]
  dsimp only
  rw [arrive_eq hskip hentry]

section

variable {segments : List Segment} {last : Simulation}
  (hrun : Lower.visitAll (setting.frame m) setting.policy 0 0 m.body
    (.start m setting.owner.delegateBindings) = .ok segments last)
  {q : Nat} {i : Instr} (hi : m.body[q]? = some i)

include hrun hi

theorem exists_handled :
    ∃ before s segment t fate, runTo setting m q = .ok before s ∧
      runTo setting m (q + 1) = .ok (before ++ [segment]) t ∧
      Handled { setting.frame m with position := q } setting.policy i s fate segment t ∧
      (t.skipNext = true → fate = .processed) := by
  obtain ⟨before, s, segment, t, line, hbefore, hawaits, hnext, hvisit⟩ := runTo_succ hrun hi
  obtain ⟨_, fate, hhandled, hprocessed⟩ := visit_handled hawaits hvisit
  exact ⟨before, s, segment, t, fate, hbefore, hnext, hhandled, hprocessed⟩

/-- A place that a branch leads to is not absorbed. -/
theorem skipNext_of_target {j : Instr} (hj : j ∈ m.body) (htarget : j.target? = some i.offset)
    {before : List Segment} (hbefore : runTo setting m q = .ok before s) : s.skipNext = false := by
  cases q with
  | zero =>
    cases hbefore
    rfl
  | succ p =>
    obtain ⟨hlt, _⟩ := List.getElem?_eq_some_iff.1 hi
    obtain ⟨_, s₀, segment, _, fate, _, hnext, hhandled, hprocessed⟩ :=
      exists_handled hrun (List.getElem?_eq_getElem (Nat.lt_of_succ_lt hlt))
    cases hnext.symm.trans hbefore
    cases hskip : s.skipNext with
    | false => rfl
    | true =>
      -- the instruction in front would have had to look at the branches
      cases hprocessed hskip
      cases hhandled with
      | processed hskip₀ hentry hcode =>
        have hclear := (enter_entered hentry).skipNext.trans hskip₀
        have hset : s.skipNext ≠ _ := fun hsame =>
          Bool.false_ne_true (hclear.symm.trans (hsame.symm.trans hskip))
        obtain ⟨_, _, store, _, _, habsorbs⟩ := Lower.step_absorbs hcode hset
        have hstore : some i = some store := hi.symm.trans habsorbs.next
        cases hstore
        exact absurd htarget (habsorbs.free j hj)

/-- Arriving at an instruction that is not absorbed. -/
theorem exists_entered {before : List Segment} (hbefore : runTo setting m q = .ok before s)
    (hskip : s.skipNext = false) :
    ∃ segment t s', runTo setting m (q + 1) = .ok (before ++ [segment]) t ∧
      stateAt? setting m q = some s' ∧ Becomes s' t ∧
      Entered { setting.frame m with position := q } i.offset { s with skipTo := none }
        segment.entry s' := by
  obtain ⟨_, _, segment, t, fate, hbefore', hnext, hhandled, _⟩ := exists_handled hrun hi
  cases hbefore'.symm.trans hbefore
  have hstep {s' : Simulation} : Evolves s' (Lower.step { setting.frame m with position := q } i) :=
    Lower.evolves_step
  cases hhandled with
  | @processed _ s' _ _ hentry hcode =>
    have hbecomes := @hstep s'
    rw [Evolves, hcode] at hbecomes
    exact ⟨segment, t, s', hnext, stateAt?_of_enter hi hbefore hskip hentry, hbecomes,
      enter_entered hentry⟩
  | @dropped _ s' u _ message _ hentry hcode _ _ _ =>
    have hbecomes := @hstep s'
    rw [Evolves, hcode] at hbecomes
    exact ⟨segment, _, s', hnext, stateAt?_of_enter hi hbefore hskip hentry,
      hbecomes.tail (.warn u message), enter_entered hentry⟩
  | absorbed hskip' _ => exact absurd (hskip.symm.trans hskip') Bool.false_ne_true

end

structure Flow where
  offset : UInt32
  items : List Item
  deriving DecidableEq

def flowAt? (setting : Setting) (m : MethodDecl) (p : Nat) : Option Flow :=
  match m.body[p]?, stateAt? setting m p with
  | some i, some s =>
    match i.target?, Lower.step { setting.frame m with position := p } i s with
    | some offset, .ok _ _ =>
      if i.code.category = .branch ∧ s.skipNext = false ∧ m.isNative = false then
        some { offset, items := (s.stack.drop (i.code.defaultPop.count 0 0)).reverse }
      else none
    | _, _ => none
  | _, _ => none

def SegmentAt (setting : Setting) (m : MethodDecl) (p : Nat) (segment : Segment) : Prop :=
  ∃ before t, runTo setting m (p + 1) = .ok (before ++ [segment]) t

theorem flowAt?_eq_some {p : Nat} {flow : Flow} (h : flowAt? setting m p = some flow) :
    ∃ i s code t, m.body[p]? = some i ∧ stateAt? setting m p = some s ∧
      Lower.step { setting.frame m with position := p } i s = .ok code t ∧
      i.target? = some flow.offset ∧ i.code.category = .branch ∧ s.skipNext = false ∧
      m.isNative = false ∧ flow.items = (s.stack.drop (i.code.defaultPop.count 0 0)).reverse := by
  rw [flowAt?] at h
  split at h
  · next i s hi hs =>
    split at h
    · next offset code t htarget hstep =>
      split at h
      · next hbranch =>
        cases h
        exact ⟨i, s, code, t, hi, hs, hstep, htarget, hbranch.1, hbranch.2.1, hbranch.2.2, rfl⟩
      · cases h
    · cases h
  · cases h

theorem stateAt?_eq_some {q : Nat} {i : Instr} (hi : m.body[q]? = some i)
    (h : stateAt? setting m q = some t) :
    ∃ before s entry, runTo setting m q = .ok before s ∧
      Lower.arrive { setting.frame m with position := q } i s = .ok entry t := by
  rw [stateAt?, hi] at h
  split at h
  · next before s i' hbefore hi' =>
    cases hi'
    split at h
    · next entry s' harrive =>
      cases h
      exact ⟨before, s, entry, hbefore, harrive⟩
    · cases h
  · cases h

/-- The branch at place `p` gets its condition ready, then assigns its items to the given variables,
and jumps. -/
def CarriesAt (setting : Setting) (m : MethodDecl) (p : Nat) (flow : Flow) (slots : List Variable) :
    Prop :=
  ∃ i s segment front carried jump t u v, m.body[p]? = some i ∧ stateAt? setting m p = some s ∧
    SegmentAt setting m p segment ∧ segment.code = front ++ carried ++ [jump] ∧
    jump.target = some (.source flow.offset) ∧ Decides i s front t ∧
    Lower.joinVariables flow.offset flow.items t = .ok (some slots) u ∧
    Carries setting.coerce { u with stack := [] } slots flow.items carried v

theorem CarriesAt.length_eq {p : Nat} {flow : Flow} {slots : List Variable}
    (h : CarriesAt setting m p flow slots) : slots.length = flow.items.length := by
  obtain ⟨_, _, _, _, _, _, _, _, _, _, _, _, _, _, _, _, hcarries⟩ := h
  exact hcarries.length_eq

section

variable {segments : List Segment} {last : Simulation}
  (hrun : Lower.visitAll (setting.frame m) setting.policy 0 0 m.body
    (.start m setting.owner.delegateBindings) = .ok segments last)

include hrun

theorem flowAt?_spilled {p : Nat} {flow : Flow} (h : flowAt? setting m p = some flow) :
    ∃ i s before segment t front carried jump u, m.body[p]? = some i ∧
      stateAt? setting m p = some s ∧ runTo setting m (p + 1) = .ok (before ++ [segment]) t ∧
      segment.code = front ++ carried ++ [jump] ∧ jump.target = some (.source flow.offset) ∧
      Decides i s front u ∧ u.stack.reverse = flow.items ∧
      Spilled { setting.frame m with position := p } flow.offset (i.code != .br) u carried t := by
  obtain ⟨i, s', code, t', hi, hstate, hstep, htarget, hbranch, hskip', _, hitems⟩ :=
    flowAt?_eq_some h
  obtain ⟨before, s, segment, t, fate, hbefore, hnext, hhandled, _⟩ := exists_handled hrun hi
  obtain ⟨_, _, entry, hbefore', harrive⟩ := stateAt?_eq_some hi hstate
  cases hbefore'.symm.trans hbefore
  cases hhandled with
  | processed hskip hentry hcode =>
    cases (arrive_eq hskip hentry).symm.trans harrive
    rw [Lower.step, hbranch] at hcode
    obtain ⟨offset, front, carried, jump, u, htarget', hsplit, hjump, hdecides, hspilled⟩ :=
      Lower.branch_flows hbranch hcode
    cases htarget'.symm.trans htarget
    rw [← hdecides.spares.2] at hitems
    exact ⟨i, s', before, segment, t, front, carried, jump, u, hi, hstate, hnext, hsplit, hjump,
      hdecides, hitems.symm, hspilled⟩
  | dropped hskip hentry hcode _ _ _ =>
    cases (arrive_eq hskip hentry).symm.trans harrive
    cases hcode.symm.trans hstep
  | absorbed hskip _ =>
    rw [Lower.arrive, get_bind, if_pos hskip] at harrive
    cases harrive
    exact absurd (hskip'.symm.trans hskip) Bool.false_ne_true

/-- Without a warning all items that flow to an offset go to the variables of its join. -/
theorem flowAt?_carries {p : Nat} {flow : Flow} (h : flowAt? setting m p = some flow)
    (hitems : flow.items ≠ [])
    (hquiet : ∀ count expected, flowWarning flow.offset count expected ∉ last.warnings) :
    ∃ slots before t, CarriesAt setting m p flow slots ∧ runTo setting m (p + 1) = .ok before t ∧
      t.joins.lookup flow.offset = some slots := by
  obtain ⟨i, s, before, segment, t, front, carried, jump, u, hi, hstate, hnext, hsplit, hjump,
    hdecides, hstack, hspilled⟩ := flowAt?_spilled hrun h
  cases hspilled with
  | nothing hnil =>
    rw [hnil] at hstack
    exact absurd hstack.symm hitems
  | refused _ _ =>
    have hlast := (Becomes.warnings (runTo_becomes_last hnext hrun)).subset
      (List.mem_append_right u.warnings List.mem_cons_self)
    exact absurd hlast (hquiet _ _)
  | @carried slots _ _ _ _ _ hjoin hcode _ _ hlookup _ =>
    rw [hstack] at hjoin hcode
    exact ⟨slots, _, t, ⟨i, s, segment, front, carried, jump, u, _, _, hi, hstate,
      ⟨before, t, hnext⟩, hsplit, hjump, hdecides, hjoin, hcode⟩, hnext, hlookup⟩

/-- A join is there only if items have flowed to it. -/
theorem exists_flowAt? (hnative : m.isNative = false) {q : Nat} {before : List Segment}
    (hbefore : runTo setting m q = .ok before s) (hslots : s.joins.lookup offset = some slots) :
    ∃ p flow, p < q ∧ flowAt? setting m p = some flow ∧ flow.offset = offset ∧
      flow.items ≠ [] := by
  induction q generalizing before s slots with
  | zero =>
    cases hbefore
    cases hslots
  | succ q ih =>
    cases hi : m.body[q]? with
    | none =>
      rw [runTo, List.take_add_one, hi, Option.toList_none, List.append_nil] at hbefore
      obtain ⟨p, flow, hp, hflow⟩ := ih hbefore hslots
      exact ⟨p, flow, Nat.lt_succ_of_lt hp, hflow⟩
    | some i =>
      obtain ⟨_, s₀, segment, t, fate, hbefore₀, hnext, hhandled, _⟩ := exists_handled hrun hi
      cases hnext.symm.trans hbefore
      cases hslots₀ : s₀.joins.lookup offset with
      | some earlier =>
        obtain ⟨p, flow, hp, hflow⟩ := ih hbefore₀ hslots₀
        exact ⟨p, flow, Nat.lt_succ_of_lt hp, hflow⟩
      | none =>
        -- the join is new, so that it is this instruction whose items flow to it
        cases hhandled with
        | absorbed _ _ => cases hslots₀.symm.trans hslots
        | dropped _ hentry hcode hlocal _ _ =>
          have hkept := ((Lower.step_error hcode).2 hlocal).joins
          have hnone := ((enter_entered hentry).lookup offset).trans hslots₀
          rw [← hkept] at hnone
          cases hnone.symm.trans hslots
        | @processed _ s' _ hskip hentry hcode =>
          have hentered := enter_entered hentry
          obtain ⟨hbranch, htarget, hitems⟩ :=
            step_adds_join hcode ((hentered.lookup offset).trans hslots₀) hslots
          have hstate := stateAt?_of_enter hi hbefore₀ hskip hentry
          refine ⟨q, ⟨offset, _⟩, Nat.lt_succ_self q, ?_, rfl, List.reverse_ne_nil_iff.2 hitems⟩
          simp only [flowAt?, hi, hstate, htarget, hcode]
          exact if_pos ⟨hbranch, hentered.skipNext.trans hskip, hnative⟩

end

/-- The instruction at place `q` is not absorbed, and it is lowered with exactly the given variables
on the stack. Items that fall through to it are assigned to them in front of its label. -/
def ArrivesWith (setting : Setting) (m : MethodDecl) (q : Nat) (slots : List Variable) : Prop :=
  ∃ before s segment t s', runTo setting m q = .ok before s ∧ s.skipNext = false ∧
    runTo setting m (q + 1) = .ok (before ++ [segment]) t ∧ stateAt? setting m q = some s' ∧
    s'.stack = Lower.joined slots ∧ (s.stack = [] → segment.entry = []) ∧
    (s.stack ≠ [] → ∃ u, Carries setting.coerce { s with stack := [], skipTo := none } slots
      s.stack.reverse segment.entry u)

structure AreTemporaries (result : LoweredMethod) (slots : List Variable) : Prop where
  numbered : ∃ k types, slots = temporariesFrom k types
  declared : ∀ v ∈ slots, v.declaration ∈ result.method.body.variables

theorem flowAt?_target {p : Nat} {flow : Flow} (h : flowAt? setting m p = some flow) :
    ∃ j ∈ m.body, j.target? = some flow.offset := by
  obtain ⟨j, _, _, _, hj, _, _, htarget, _⟩ := flowAt?_eq_some h
  exact ⟨j, List.mem_of_getElem? hj, htarget⟩

section

variable {segments : List Segment} {last : Simulation}
  (hrun : Lower.visitAll (setting.frame m) setting.policy 0 0 m.body
    (.start m setting.owner.delegateBindings) = .ok segments last)

include hrun

/-- Items that flowed to a place from above are there when it is reached. -/
theorem arrivesWith {q : Nat} {i : Instr} (hi : m.body[q]? = some i)
    (hquiet : ∀ count expected, flowWarning i.offset count expected ∉ last.warnings)
    {p : Nat} (hp : p < q) {flow : Flow} (hflow : flowAt? setting m p = some flow)
    (hoffset : flow.offset = i.offset) {made : List Segment}
    (hnext : runTo setting m (p + 1) = .ok made t)
    (hslots : t.joins.lookup i.offset = some slots) : ArrivesWith setting m q slots := by
  obtain ⟨before, s, _, _, _, hbefore, _, _, _⟩ := exists_handled hrun hi
  obtain ⟨j, hj, htarget⟩ := flowAt?_target hflow
  rw [hoffset] at htarget
  have hskip := skipNext_of_target hrun hi hj htarget hbefore
  have hslots' := Becomes.lookup (runTo_becomes hp hnext hbefore) hslots
  obtain ⟨segment, u, s', hnext', hstate, hbecomes, hentered⟩ :=
    exists_entered hrun hi hbefore hskip
  have hkept := Becomes.warnings (hbecomes.trans (runTo_becomes_last hnext' hrun))
  obtain ⟨hstack, hempty, hcarries⟩ :=
    hentered.joined hslots' fun count expected h => hquiet count expected (hkept.subset h)
  exact ⟨before, s, segment, u, s', hbefore, hskip, hnext', hstate, hstack, hempty, hcarries⟩

end

/-- The variables of a join, to which all flows to its offset assign their items. -/
theorem exists_slots {result : LoweredMethod} (h : lowerMethod setting m = .ok result) {p : Nat}
    {flow : Flow} (hflow : flowAt? setting m p = some flow) (hitems : flow.items ≠ [])
    (hquiet : ∀ count expected, flowWarning flow.offset count expected ∉ result.warnings) :
    ∃ segments last slots,
      Lower.visitAll (setting.frame m) setting.policy 0 0 m.body
        (.start m setting.owner.delegateBindings) = .ok segments last ∧
      (∀ count expected, flowWarning flow.offset count expected ∉ last.warnings) ∧
      last.joins.lookup flow.offset = some slots ∧ AreTemporaries result slots ∧
      ∀ p' flow', flowAt? setting m p' = some flow' → flow'.offset = flow.offset →
        flow'.items ≠ [] → CarriesAt setting m p' flow' slots ∧
          ∃ made t, runTo setting m (p' + 1) = .ok made t ∧
            t.joins.lookup flow.offset = some slots := by
  obtain ⟨_, _, _, _, _, _, _, _, _, _, hnative, _⟩ := flowAt?_eq_some hflow
  obtain ⟨segments, last, hrun, hvariables, hwarnings⟩ := lowerMethod_run hnative h
  have hquiet' (count expected : Nat) : flowWarning flow.offset count expected ∉ last.warnings := by
    intro hmem
    apply hquiet count expected
    rw [hwarnings]
    exact List.mem_append_left _ hmem
  obtain ⟨slots, _, _, _, hnext, hslots⟩ := flowAt?_carries hrun hflow hitems hquiet'
  have hlast := Becomes.lookup (runTo_becomes_last hnext hrun) hslots
  have hstart : runTo setting m 0 = .ok [] (.start m setting.owner.delegateBindings) := rfl
  obtain ⟨k, types, _, hnumbered, hdeclared⟩ :=
    Becomes.exists_temporaries (runTo_becomes_last hstart hrun) rfl hlast
  rw [← hvariables] at hdeclared
  refine ⟨segments, last, slots, hrun, hquiet', hlast, ⟨⟨k, types, hnumbered⟩, hdeclared⟩, ?_⟩
  intro p' flow' hflow' hoffset hitems'
  rw [← hoffset] at hquiet'
  obtain ⟨slots', made, t, hcarries, hnext', hslots'⟩ := flowAt?_carries hrun hflow' hitems' hquiet'
  rw [hoffset] at hslots'
  cases (Becomes.lookup (runTo_becomes_last hnext' hrun) hslots').symm.trans hlast
  exact ⟨hcarries, made, t, hnext', hslots'⟩

/-- Items that flow down to a place arrive there in temporaries, which are the same on all ways. -/
theorem forward_flows_arrive {result : LoweredMethod} (h : lowerMethod setting m = .ok result)
    {q : Nat} {i : Instr} (hi : m.body[q]? = some i) {p : Nat} (hp : p < q) {flow : Flow}
    (hflow : flowAt? setting m p = some flow) (hoffset : flow.offset = i.offset)
    (hitems : flow.items ≠ [])
    (hquiet : ∀ count expected, flowWarning i.offset count expected ∉ result.warnings) :
    ∃ slots, slots.length = flow.items.length ∧ AreTemporaries result slots ∧
      (∀ p' flow', flowAt? setting m p' = some flow' → flow'.offset = i.offset →
        flow'.items ≠ [] → CarriesAt setting m p' flow' slots) ∧
      ArrivesWith setting m q slots := by
  rw [← hoffset] at hquiet
  obtain ⟨segments, last, slots, hrun, hquiet', _, htemporaries, hflows⟩ :=
    exists_slots h hflow hitems hquiet
  rw [hoffset] at hquiet' hflows
  obtain ⟨hcarries, made, t, hnext, hslots⟩ := hflows p flow hflow hoffset hitems
  refine ⟨slots, hcarries.length_eq, htemporaries, ?_, ?_⟩
  · exact fun p' flow' hflow' hoffset' hitems' => (hflows p' flow' hflow' hoffset' hitems').1
  · exact arrivesWith hrun hi hquiet' hp hflow hoffset hnext hslots

/-- One of two numbers is stored, with a store that both ways lead to. -/
def pickNumber : MethodDecl :=
  { name := "Pick"
    parameters := [{ name := "x", type := .int32 }]
    returns := .int32
    isStatic := true
    body := [
      { offset := 0, code := .ldarg, operand := .index 0 },
      { offset := 1, code := .brtrue, operand := .target 12 },
      { offset := 6, code := .ldcI4, operand := .int 0 },
      { offset := 7, code := .br, operand := .target 13 },
      { offset := 12, code := .ldcI4, operand := .int 1 },
      { offset := 13, code := .starg, operand := .index 0 },
      { offset := 14, code := .ldarg, operand := .index 0 },
      { offset := 15, code := .ret }] }

theorem forward_flows_arrive_pickNumber :
    ∃ result, lowerMethod lenientSetting pickNumber = .ok result ∧
      flowAt? lenientSetting pickNumber 3 = some ⟨13, [.ofValue (.int 0)]⟩ ∧
      ∃ slots, slots.length = 1 ∧ AreTemporaries result slots ∧
        (∀ p' flow', flowAt? lenientSetting pickNumber p' = some flow' → flow'.offset = 13 →
          flow'.items ≠ [] → CarriesAt lenientSetting pickNumber p' flow' slots) ∧
        ArrivesWith lenientSetting pickNumber 5 slots := by
  have hwarnings : ((lowerMethod lenientSetting pickNumber).toOption.map LoweredMethod.warnings) =
      some [] := by
    decide +kernel
  have hflow : flowAt? lenientSetting pickNumber 3 = some ⟨13, [.ofValue (.int 0)]⟩ := by
    decide +kernel
  cases h : lowerMethod lenientSetting pickNumber with
  | error fault =>
    rw [h] at hwarnings
    cases hwarnings
  | ok result =>
    rw [h] at hwarnings
    have hnone : result.warnings = [] := Option.some.inj hwarnings
    refine ⟨result, rfl, hflow, forward_flows_arrive h
      (i := { offset := 13, code := .starg, operand := .index 0 }) rfl (by decide) hflow rfl
      (by decide) ?_⟩
    intro count expected
    rw [hnone]
    exact List.not_mem_nil

end PapyrusBackend.Lowering
