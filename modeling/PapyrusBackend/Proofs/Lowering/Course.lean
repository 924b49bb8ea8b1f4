import PapyrusBackend.Proofs.Lowering.IntegerStep

namespace PapyrusBackend.Lowering

open Source Semantics

variable {f : Frame} {m : MethodDecl} {s s' : Simulation}

theorem KnownName.mono {count count' : Nat} {name : String} (h : KnownName m count name)
    (hle : count ≤ count') : KnownName m count' name := by
  obtain hslot | ⟨k, hk, hname⟩ := h
  · exact .inl hslot
  · exact .inr ⟨k, Nat.lt_of_lt_of_le hk hle, hname⟩

theorem name_mem_slotNames {slot : Managed.Slot} {v : Variable}
    (hv : slotVariable? m slot = some v) : v.name ∈ slotNames m := by
  apply List.mem_map_of_mem
  cases slot with
  | argument k => exact List.mem_append_left _ (List.mem_of_getElem? hv)
  | «local» k => exact List.mem_append_right _ (List.mem_of_getElem? hv)

theorem IntegerState.push (hs : IntegerState m s) {item : Item} (hitem : IntegerItem item)
    (hknown : ∀ name ∈ item.reads, KnownName m s.temporaries name) :
    IntegerState m { s with stack := item :: s.stack } where
  skipTo := hs.skipTo
  joins := hs.joins
  locals := hs.locals
  items := List.forall_mem_cons.2 ⟨hitem, hs.items⟩
  known := List.forall_mem_cons.2 ⟨hknown, hs.known⟩

theorem IntegerState.withFresh (hs : IntegerState m s) (type : String) :
    IntegerState m (s.withFresh type) where
  skipTo := hs.skipTo
  joins := hs.joins
  locals := hs.locals
  items := hs.items
  known item hitem name hname := (hs.known item hitem name hname).mono (Nat.le_succ _)

theorem Placed.integerState {v : Variable} (h : Placed f s v s') (hs : IntegerState f.method s) :
    IntegerState f.method s' := by
  cases h with
  | pushed =>
    refine (hs.withFresh "Int").push ⟨rfl, rfl, .inr ⟨_, rfl, rfl⟩⟩ fun name hname => ?_
    exact .inr ⟨s.temporaries, Nat.lt_succ_self _, List.mem_singleton.1 hname⟩
  | absorbed => exact ⟨hs.skipTo, hs.joins, hs.locals, hs.items, hs.known⟩

theorem Lowered.integerState {c : Code} {operand : Operand} {code : List Instruction}
    (h : Lowered f s c operand code s') (hm : IntegerMethod f.method)
    (hs : IntegerState f.method s) : IntegerState f.method s' := by
  have hdrop (top : Stack) {rest : Stack} (hstack : s.stack = top ++ rest) :
      IntegerState f.method { s with stack := rest } :=
    hs.drop fun item hitem => hstack ▸ List.mem_append_right top hitem
  cases h with
  | nop | br | retNone => exact hs
  | load _ hv =>
    refine hs.push (integerItem_ofVariable hm hv) fun name hname => ?_
    rw [List.mem_singleton.1 hname]
    exact .inl (name_mem_slotNames hv)
  | literal n =>
    exact hs.push ⟨rfl, rfl, .inl ⟨n, rfl⟩⟩ fun name hname => absurd hname List.not_mem_nil
  | @store _ _ _ _ item _ hstack => exact hdrop [item] hstack
  | @operator _ _ a b _ _ _ hstack _ hplaced =>
    exact hplaced.integerState (hdrop [b, a] hstack)
  | @neg a _ _ _ hstack hplaced => exact hplaced.integerState (hdrop [a] hstack)
  | dup hstack =>
    have hitem := hstack ▸ List.mem_cons_self
    exact hs.push (hs.items _ hitem) (hs.known _ hitem)
  | @pop item _ hstack => exact hdrop [item] hstack
  | @ret item _ _ hstack => exact hdrop [item] hstack
  | @truth _ _ item hstack => exact hdrop [item] hstack
  | compare => exact (hs.withFresh "Bool").drop fun item hitem => absurd hitem List.not_mem_nil

/-- The next instruction has been taken care of only if it is a store that no branch leads to. -/
theorem Lowered.pending {c : Code} {operand : Operand} {code : List Instruction}
    (h : Lowered f s c operand code s') (hs : s.skipNext = false) (hs' : s'.skipNext = true) :
    ∃ next, f.next? = some next ∧ f.isBranchTarget next.offset = false := by
  have hplaced {t : Simulation} {v : Variable} (h : Placed f t v s') (ht : t.skipNext = false) :
      ∃ next, f.next? = some next ∧ f.isBranchTarget next.offset = false := by
    cases h with
    | pushed => exact absurd (ht.symm.trans hs') Bool.false_ne_true
    | absorbed hnext htarget => exact ⟨_, hnext, htarget⟩
  cases h with
  | operator _ _ h => exact hplaced h hs
  | neg _ h => exact hplaced h hs
  | _ => exact absurd (hs.symm.trans hs') Bool.false_ne_true

inductive Visited (f : Frame) (i : Instr) (s : Simulation) : List Instruction → Simulation → Prop
  | skipped (h : s.skipNext = true) : Visited f i s [] { s with skipNext := false }
  | lowered {code : List Instruction} {s' : Simulation} (h : s.skipNext = false)
      (hcode : Lowered f s i.code i.operand code s') : Visited f i s code s'

theorem Visited.integerState {i : Instr} {code : List Instruction} (h : Visited f i s code s')
    (hm : IntegerMethod f.method) (hs : IntegerState f.method s) : IntegerState f.method s' := by
  cases h with
  | skipped => exact ⟨hs.skipTo, hs.joins, hs.locals, hs.items, hs.known⟩
  | lowered _ hcode => exact hcode.integerState hm hs

theorem Visited.pending {i : Instr} {code : List Instruction} (h : Visited f i s code s')
    (hs' : s'.skipNext = true) :
    ∃ next, f.next? = some next ∧ f.isBranchTarget next.offset = false := by
  cases h with
  | skipped => exact absurd hs' Bool.false_ne_true
  | lowered hskip hcode => exact hcode.pending hskip hs'

theorem Visited.of_skipNext {i : Instr} {code : List Instruction} (h : Visited f i s code s')
    (hs : s.skipNext = true) : code = [] ∧ s' = { s with skipNext := false } := by
  cases h with
  | skipped => exact ⟨rfl, rfl⟩
  | lowered hskip => exact absurd (hskip.symm.trans hs) Bool.false_ne_true

theorem Visited.of_not_skipNext {i : Instr} {code : List Instruction} (h : Visited f i s code s')
    (hs : s.skipNext = false) : Lowered f s i.code i.operand code s' := by
  cases h with
  | skipped hskip => exact absurd (hs.symm.trans hskip) Bool.false_ne_true
  | lowered _ hcode => exact hcode

theorem tolerate_ok {i : Instr} {x : Lower (List Instruction)} {code : List Instruction}
    (h : Lower.tolerate .strict i x s = .ok code s') : x s = .ok code s' := by
  rw [Lower.tolerate] at h
  cases hx : x s with
  | ok code' t => rwa [hx] at h
  | error fault t =>
    simp only [hx, reduceCtorEq, false_and, if_false] at h

theorem enter_eq (hs : s.joins = []) (offset : UInt32) : Lower.enter f offset s = .ok [] s := by
  rw [Lower.enter, bind_run (show (get : Lower Simulation) s = .ok s s from rfl), hs]
  rfl

theorem visit_ok {i : Instr} {line : UInt16} {segment : Option Segment}
    (hm : IntegerMethod f.method) (hcoerce : f.coerce = Value.coerce) (hi : i ∈ f.method.body)
    (hs : IntegerState f.method s) {after : Simulation} (htidy : Tidy f i s after)
    (h : Lower.visit f .strict line i s = .ok segment s') :
    ∃ code, segment = some { offset := i.offset, line, code } ∧ Visited f i s code s' := by
  obtain ⟨t, t', hget, hvisit⟩ := bind_ok h
  cases hget
  cases hskip : s.skipNext with
  | true =>
    rw [if_pos hskip] at hvisit
    cases hvisit
    exact ⟨[], rfl, .skipped hskip⟩
  | false =>
    have hset : { s with skipTo := none } = s := by rw [← hs.skipTo]
    rw [if_neg (by rw [hskip]; exact Bool.false_ne_true),
      if_neg (by rw [hs.skipTo]; exact Bool.false_ne_true), hset] at hvisit
    obtain ⟨_, t, hput, hvisit⟩ := bind_ok hvisit
    cases hput
    obtain ⟨entry, t', henter, hstep⟩ := bind_ok hvisit
    rw [enter_eq hs.joins] at henter
    cases henter
    obtain ⟨code, t'', hcode, hpure⟩ := bind_ok hstep
    cases hpure
    exact ⟨code, rfl, .lowered hskip (lowered_of_step hm hcoerce hi hs htidy (tolerate_ok hcode))⟩

/-- Lowering the instructions from a position on: the simulations in front of them and behind the
last, and the segments they became. -/
structure Course (f : Frame) (position : Nat) (instrs : List Instr) (segments : List Segment)
    (sims : Nat → Simulation) : Prop where
  length : segments.length = instrs.length
  state : ∀ k, IntegerState f.method (sims k)
  tidy : ∀ k i, instrs[k]? = some i → Tidy f i (sims k) (sims (k + 1))
  visited : ∀ k i, instrs[k]? = some i → ∃ line code,
    segments[k]? = some { offset := i.offset, line, code } ∧
      Visited { f with position := position + k } i (sims k) code (sims (k + 1))

theorem exists_course (hm : IntegerMethod f.method) (hcoerce : f.coerce = Value.coerce)
    (instrs : List Instr) (position : Nat) (line : UInt16)
    (hinstrs : ∀ i ∈ instrs, i ∈ f.method.body) (hs : IntegerState f.method s)
    (htidy : TidyFrom f .strict position line instrs s) {segments : List Segment}
    (h : Lower.visitAll f .strict position line instrs s = .ok segments s') :
    ∃ sims, sims 0 = s ∧ Course f position instrs segments sims := by
  induction instrs generalizing position line s segments with
  | nil =>
    cases h
    refine ⟨fun _ => s', rfl, rfl, fun _ => hs, ?_, ?_⟩
    · intro k i hi
      cases hi
    · intro k i hi
      cases hi
  | cons i rest ih =>
    obtain ⟨hi, hrest⟩ := List.forall_mem_cons.1 hinstrs
    obtain ⟨segment, t, hvisit, hsegments⟩ := bind_ok h
    obtain ⟨others, t', hothers, hpure⟩ := bind_ok hsegments
    cases hpure
    simp only [TidyFrom, hvisit] at htidy
    obtain ⟨htidy, hfrom⟩ := htidy
    have htidy' : Tidy { f with position } i s t := ⟨htidy.branch, htidy.target, htidy.store⟩
    obtain ⟨code, rfl, hvisited⟩ :=
      visit_ok (f := { f with position }) hm hcoerce hi hs htidy' hvisit
    obtain ⟨sims, rfl, hcourse⟩ :=
      ih (position + 1) _ hrest (hvisited.integerState hm hs) hfrom hothers
    refine ⟨fun k => k.casesOn s sims, rfl, congrArg Nat.succ hcourse.length, ?_, ?_, ?_⟩
    · intro k
      cases k with
      | zero => exact hs
      | succ k => exact hcourse.state k
    · intro k j hj
      cases k with
      | zero => cases hj; exact htidy
      | succ k => exact hcourse.tidy k j hj
    · intro k j hj
      cases k with
      | zero => cases hj; exact ⟨_, code, rfl, hvisited⟩
      | succ k =>
        obtain ⟨line', code', hsegment, hvisited'⟩ := hcourse.visited k j hj
        rw [Nat.succ_add_eq_add_succ] at hvisited'
        exact ⟨line', code', hsegment, hvisited'⟩

theorem Course.offsets {position : Nat} {instrs : List Instr} {segments : List Segment}
    {sims : Nat → Simulation} (h : Course f position instrs segments sims) :
    segments.map Segment.offset = instrs.map Instr.offset := by
  apply List.ext_getElem?
  intro k
  rw [List.getElem?_map, List.getElem?_map]
  cases hi : instrs[k]? with
  | none =>
    rw [List.getElem?_eq_none_iff, ← h.length, ← List.getElem?_eq_none_iff] at hi
    rw [hi]
    rfl
  | some i =>
    obtain ⟨line, code, hsegment, _⟩ := h.visited k i hi
    rw [hsegment]
    rfl

theorem integerState_start (m : MethodDecl) (delegates : Bindings) :
    IntegerState m (.start m delegates) where
  skipTo := rfl
  joins := rfl
  locals := rfl
  items _ hitem := absurd hitem List.not_mem_nil
  known _ hitem := absurd hitem List.not_mem_nil

/-- A branch leads to an instruction that has not been taken care of. -/
theorem Course.not_skipped {segments : List Segment} {sims : Nat → Simulation}
    (hcourse : Course f 0 f.method.body segments sims) (hstart : (sims 0).skipNext = false) {k : Nat}
    {i : Instr} (hi : f.method.body[k]? = some i) (htarget : f.isBranchTarget i.offset = true) :
    (sims k).skipNext = false := by
  cases k with
  | zero => exact hstart
  | succ k =>
    obtain ⟨hk, _⟩ := List.getElem?_eq_some_iff.1 hi
    obtain ⟨line, code, _, hvisited⟩ :=
      hcourse.visited k _ (List.getElem?_eq_getElem (Nat.lt_of_succ_lt hk))
    rw [Nat.zero_add] at hvisited
    apply Bool.eq_false_iff.2
    intro hpending
    obtain ⟨next, hnext, hnot⟩ := hvisited.pending hpending
    have hsame : some next = some i := hnext.symm.trans hi
    cases hsame
    exact absurd (hnot.symm.trans htarget) Bool.false_ne_true

end PapyrusBackend.Lowering
