import Mathlib.Data.List.Forall2
import PapyrusBackend.Lowering.MethodCode
import PapyrusBackend.Proofs.Lowering.EmittedStep
import PapyrusBackend.Proofs.Sequence

namespace PapyrusBackend.Lowering

open Source

variable {f : Frame} {i : Instr} {policy : Policy}

structure Segment.Serves (i : Instr) (segment : Segment) : Prop where
  offset : segment.offset = i.offset
  entry : PlainCode segment.entry
  code : ∀ j ∈ segment.code, Emitted i j

theorem Segment.Serves.emitted {segment : Segment} (h : segment.Serves i) :
    ∀ j ∈ segment.instructions, Emitted i j :=
  List.forall_mem_append.2 ⟨fun j hj => .plain (h.entry j hj), h.code⟩

/-- All code is that of some managed instruction. -/
theorem exists_emitted {instrs : List Instr} {segments : List Segment}
    (h : List.Forall₂ Segment.Serves instrs segments) {j : Instruction}
    (hj : j ∈ segments.flatMap Segment.instructions) : ∃ i ∈ instrs, Emitted i j := by
  induction h with
  | nil => cases hj
  | cons hfirst _ ih =>
    obtain hj | hj := List.mem_append.1 hj
    · exact ⟨_, List.mem_cons_self, hfirst.emitted j hj⟩
    · obtain ⟨i, hi, hemitted⟩ := ih hj
      exact ⟨i, List.mem_cons_of_mem _ hi, hemitted⟩

namespace Lower

def arrive (f : Frame) (i : Instr) : Lower (List Instruction) := do
  let s ← get
  if s.skipNext then return []
  else
    set { s with skipTo := none }
    enter f i.offset

theorem runs_tolerate :
    Runs Quiet (tolerate policy i (step f i)) (Passed f) fun code => ∀ j ∈ code, Emitted i j := by
  intro s hs
  have hstep := runs_step s hs (f := f) (i := i)
  rw [tolerate]
  cases hrun : step f i s with
  | ok code t =>
    rw [hrun] at hstep
    exact hstep
  | error fault t =>
    rw [hrun] at hstep
    dsimp only
    split
    · next hlocal =>
      have ht : Quiet t := hstep hlocal.2
      exact ⟨⟨ht.sound, .inl ht.marks.2⟩, fun j hj => absurd hj List.not_mem_nil⟩
    · exact hstep

/-- A visit always gives a segment: an instruction is waited for only until it is there. -/
theorem runs_visit (line : UInt16) :
    Runs (Awaits (some i.offset)) (visit f policy line i) (Passed f) fun segment =>
      ∃ made, segment = some made ∧ made.Serves i := by
  refine .get fun s hs => ?_
  split
  · next hskip =>
    have hnone : s.skipTo = none := hs.marks.resolve_right fun h =>
      absurd (h.1.symm.trans hskip) Bool.false_ne_true
    refine (Runs.set ⟨hs.sound, .inl hnone⟩).bind fun _ _ => .pure ⟨_, rfl, rfl, .nil, ?_⟩
    exact fun j hj => absurd hj List.not_mem_nil
  · next hskip =>
    have hthere : ¬(s.skipTo.any fun offset => i.offset < offset) = true := by
      rcases hs.marks with h | ⟨_, h⟩ <;> simp [h]
    rw [if_neg hthere]
    have hquiet : Quiet { s with skipTo := none } := ⟨hs.sound, Bool.eq_false_iff.2 hskip, rfl⟩
    refine (Runs.set hquiet).bind fun _ _ => (runs_enter i.offset).bind fun entry hentry => ?_
    exact runs_tolerate.bind fun code hcode => .pure ⟨_, rfl, rfl, hentry.plain, hcode⟩

theorem next?_eq {before rest after : List Instr}
    (hbody : f.method.body = before ++ i :: rest ++ after) :
    Frame.next? { f with position := before.length } = (rest ++ after).head? := by
  simp [Frame.next?, hbody, List.getElem?_append_right, List.head?_eq_getElem?]

theorem runs_visitAll (before instrs after : List Instr)
    (hbody : f.method.body = before ++ instrs ++ after) (line : UInt16) :
    Runs (Awaits ((instrs ++ after).head?.map Instr.offset))
      (visitAll f policy before.length line instrs) (Awaits (after.head?.map Instr.offset))
      (List.Forall₂ Segment.Serves instrs) := by
  induction instrs generalizing before line with
  | nil => exact .pure .nil
  | cons i rest ih =>
    have hrest := ih (before ++ [i]) (by simp [hbody]) (i.line.getD line)
    rw [List.length_append, List.length_singleton] at hrest
    refine (runs_visit (i.line.getD line)).bind fun segment hsegment => ?_
    obtain ⟨made, rfl, hmade⟩ := hsegment
    rw [Passed, next?_eq hbody]
    exact hrest.bind fun segments hsegments => .pure (.cons hmade hsegments)

theorem visitAll_append {instrs rest : List Instr} {position : Nat} {line : UInt16}
    {segments : List Segment} {s t : Simulation}
    (h : visitAll f policy position line (instrs ++ rest) s = .ok segments t) :
    ∃ line' first others s', visitAll f policy position line instrs s = .ok first s' ∧
      visitAll f policy (position + instrs.length) line' rest s' = .ok others t ∧
      segments = first ++ others := by
  induction instrs generalizing position line s segments with
  | nil => exact ⟨line, [], segments, s, rfl, h, rfl⟩
  | cons i instrs ih =>
    obtain ⟨segment, s₁, hvisit, hsegments⟩ := bind_ok h
    obtain ⟨made, s₂, hmade, hpure⟩ := bind_ok hsegments
    cases hpure
    obtain ⟨line', first, others, s', hfirst, hothers, rfl⟩ := ih hmade
    refine ⟨line', segment.toList ++ first, others, s', ?_, ?_, (List.append_assoc ..).symm⟩
    · rw [visitAll, bind_run hvisit, bind_run hfirst]
      rfl
    · rwa [List.length_cons, Nat.add_comm instrs.length, ← Nat.add_assoc]

/-- What has been visited is followed by the rest. -/
theorem visitAll_append_run {instrs : List Instr} {position : Nat} {line : UInt16}
    {first : List Segment} {s t : Simulation}
    (h : visitAll f policy position line instrs s = .ok first t) (rest : List Instr) :
    ∃ line', visitAll f policy position line (instrs ++ rest) s =
      (do
        let others ← visitAll f policy (position + instrs.length) line' rest
        return first ++ others) t := by
  induction instrs generalizing position line s first with
  | nil =>
    cases h
    exact ⟨line, congrFun (bind_pure _).symm _⟩
  | cons i instrs ih =>
    obtain ⟨segment, s₁, hvisit, hsegments⟩ := bind_ok h
    obtain ⟨made, s₂, hmade, hpure⟩ := bind_ok hsegments
    cases hpure
    obtain ⟨line', hrun⟩ := ih hmade
    refine ⟨line', ?_⟩
    have hplace : position + (i :: instrs).length = position + 1 + instrs.length := by
      rw [List.length_cons, Nat.add_comm instrs.length, Nat.add_assoc]
    rw [List.cons_append, visitAll, bind_run hvisit, hplace]
    cases hrest : visitAll f policy (position + 1 + instrs.length) line' rest t with
    | ok others u =>
      rw [bind_run hrest] at hrun ⊢
      rw [bind_run hrun, List.append_assoc]
    | error fault u =>
      rw [bind_fails hrest] at hrun ⊢
      rw [bind_fails hrun]

/-- A visit arrives at the instruction and then emits its code, if it has not been taken care of. -/
theorem visit_some {line : UInt16} {segment : Segment} {s t : Simulation}
    (h : visit f policy line i s = .ok (some segment) t) :
    ∃ s', arrive f i s = .ok segment.entry s' ∧
      (s'.skipNext = true ∧ segment.code = [] ∧ t = { s' with skipNext := false } ∨
        tolerate policy i (step f i) s' = .ok segment.code t) := by
  obtain ⟨_, _, hget, hvisit⟩ := bind_ok h
  cases hget
  rw [arrive, bind_run (show (get : Lower Simulation) s = .ok s s from rfl)]
  split at hvisit
  · next hskip =>
    cases hvisit
    exact ⟨s, by rw [if_pos hskip]; rfl, .inl ⟨hskip, rfl, rfl⟩⟩
  · next hskip =>
    rw [if_neg hskip]
    split at hvisit
    · cases hvisit
    · obtain ⟨_, s₁, hset, hvisit⟩ := bind_ok hvisit
      obtain ⟨entry, s₂, henter, hvisit⟩ := bind_ok hvisit
      obtain ⟨code, s₃, hcode, hpure⟩ := bind_ok hvisit
      cases hpure
      exact ⟨s₂, (bind_run hset).trans henter, .inr hcode⟩

theorem awaits_start (m : MethodDecl) (delegates : Bindings) (expected : Option UInt32) :
    Awaits expected (Simulation.start m delegates) :=
  ⟨fun _ hitem => absurd hitem List.not_mem_nil, .inl rfl⟩

variable {segments : List Segment} {s t : Simulation} (hs : ∀ expected, Awaits expected s)
  (h : visitAll f policy 0 0 f.method.body s = .ok segments t)

include hs h

theorem visitAll_serves : List.Forall₂ Segment.Serves f.method.body segments :=
  ((runs_visitAll [] f.method.body [] (List.append_nil _).symm 0).ok (hs _) h).2

/-- The first segments are those of the first instructions, and the next one is that of the next
instruction. -/
theorem visitAll_take (q : Nat) :
    ∃ s', visitAll f policy 0 0 (f.method.body.take q) s = .ok (segments.take q) s' ∧
      ∀ i, f.method.body[q]? = some i → ∃ line segment t', segments[q]? = some segment ∧
        visit { f with position := q } policy line i s' = .ok (some segment) t' := by
  have hbody := List.take_append_drop q f.method.body
  obtain hq | hq := Nat.lt_or_ge q f.method.body.length
  · have hrun := h
    rw [← hbody] at hrun
    obtain ⟨line, first, others, s', hfirst, hothers, rfl⟩ := visitAll_append hrun
    obtain ⟨hawaits, hserves⟩ := (runs_visitAll [] _ _ hbody.symm 0).ok (hs _) hfirst
    rw [List.drop_eq_getElem_cons hq] at hawaits
    have hlength : q = first.length :=
      (List.length_take_of_le (Nat.le_of_lt hq)).symm.trans hserves.length_eq
    rw [List.length_take_of_le (Nat.le_of_lt hq), Nat.zero_add,
      List.drop_eq_getElem_cons hq] at hothers
    obtain ⟨made, t', hvisit, hrest⟩ := bind_ok hothers
    obtain ⟨rest, _, _, hpure⟩ := bind_ok hrest
    cases hpure
    obtain ⟨_, segment, rfl, _⟩ := (runs_visit _).ok hawaits hvisit
    refine ⟨s', ?_, fun i hi => ?_⟩
    · rw [hlength, List.take_left, ← hlength, hfirst]
    · rw [List.getElem?_eq_getElem hq] at hi
      cases hi
      refine ⟨_, segment, t', ?_, hvisit⟩
      rw [hlength, List.getElem?_append_right (Nat.le_refl _), Nat.sub_self]
      rfl
  · have hlength := (visitAll_serves hs h).length_eq
    rw [List.take_of_length_le hq, List.take_of_length_le (hlength ▸ hq)]
    refine ⟨t, h, fun i hi => ?_⟩
    rw [List.getElem?_eq_none hq] at hi
    cases hi

end Lower

end PapyrusBackend.Lowering
