import PapyrusBackend.Proofs.Listing.Labels
import PapyrusBackend.Proofs.Lowering.Landing
import Std.Data.String.ToNat

namespace PapyrusBackend

@[simp] theorem Row.relabel_ofInstruction (f : String → String) (i : Instruction)
    (label : Option String) :
    (Row.ofInstruction i label).relabel f = .ofInstruction i (label.map f) := by
  cases label <;> rfl

theorem Listing.labelName_injective : Function.Injective Listing.labelName := by
  intro a b h
  exact Nat.repr_inj.1 ((String.append_right_inj _).1 h)

namespace Lowering

open Source Listing

variable {setting : Setting} {m : MethodDecl}

inductive Fate where
  | processed | dropped | absorbed
  deriving DecidableEq

/-- What a visit in the simulation `s` comes to. Instructions are absorbed without being looked at,
and dropped where they fail for want of operands and the caller is lenient. -/
inductive Handled (f : Frame) (policy : Policy) (i : Instr) (s : Simulation) :
    Fate → Segment → Simulation → Prop
  | processed {segment : Segment} {s' t : Simulation} (hskip : s.skipNext = false)
      (hentry : Lower.enter f i.offset { s with skipTo := none } = .ok segment.entry s')
      (hcode : Lower.step f i s' = .ok segment.code t) : Handled f policy i s .processed segment t
  | dropped {segment : Segment} {s' t : Simulation} {fault : Fault} {message : String}
      (hskip : s.skipNext = false)
      (hentry : Lower.enter f i.offset { s with skipTo := none } = .ok segment.entry s')
      (hcode : Lower.step f i s' = .error fault t) (hlocal : fault.isLocal = true)
      (hpolicy : policy = .lenient) (hempty : segment.code = []) :
      Handled f policy i s .dropped segment { t with warnings := t.warnings ++ [message] }
  | absorbed {segment : Segment} (hskip : s.skipNext = true)
      (hempty : segment.instructions = []) :
      Handled f policy i s .absorbed segment { s with skipNext := false }

def runTo (setting : Setting) (m : MethodDecl) (q : Nat) :
    EStateM.Result Fault Simulation (List Segment) :=
  Lower.visitAll (setting.frame m) setting.policy 0 0 (m.body.take q)
    (.start m setting.owner.delegateBindings)

def VisitedAs (setting : Setting) (m : MethodDecl) (q : Nat) (i : Instr) (fate : Fate) : Prop :=
  ∃ before s segment t, runTo setting m q = .ok before s ∧
    runTo setting m (q + 1) = .ok (before ++ [segment]) t ∧ segment.offset = i.offset ∧
    Handled { setting.frame m with position := q } setting.policy i s fate segment t

/-- Only an instruction that is processed can absorb the next one. -/
theorem visit_handled {f : Frame} {policy : Policy} {i : Instr} {line : UInt16} {s t : Simulation}
    {segment : Segment} (hs : Awaits (some i.offset) s)
    (h : Lower.visit f policy line i s = .ok (some segment) t) :
    segment.offset = i.offset ∧ ∃ fate, Handled f policy i s fate segment t ∧
      (t.skipNext = true → fate = .processed) := by
  obtain ⟨_, _, hget, hvisit⟩ := bind_ok h
  cases hget
  split at hvisit
  · next hskip =>
    cases hvisit
    exact ⟨rfl, .absorbed, .absorbed hskip rfl, nofun⟩
  next hskip =>
  have hskip' : s.skipNext = false := Bool.eq_false_iff.2 hskip
  split at hvisit
  · cases hvisit
  obtain ⟨_, _, hset, hvisit⟩ := bind_ok hvisit
  cases hset
  obtain ⟨entry, s', hentry, hvisit⟩ := bind_ok hvisit
  obtain ⟨code, t', hcode, hpure⟩ := bind_ok hvisit
  cases hpure
  have hclear : Quiet { s with skipTo := none } := ⟨hs.sound, hskip', rfl⟩
  have hquiet : Quiet s' := ((Lower.runs_enter i.offset).ok hclear hentry).1
  have hstep := Lower.runs_step (f := f) (i := i) s' hquiet
  rw [Lower.tolerate] at hcode
  refine ⟨rfl, ?_⟩
  cases hrun : Lower.step f i s' with
  | ok code u =>
    rw [hrun] at hcode
    cases hcode
    exact ⟨.processed, .processed hskip' hentry hrun, fun _ => rfl⟩
  | error fault u =>
    rw [hrun] at hcode hstep
    dsimp only at hcode
    split at hcode
    · next hlocal =>
      cases hcode
      have hquiet' : Quiet u := hstep hlocal.2
      refine ⟨.dropped, .dropped hskip' hentry hrun hlocal.2 hlocal.1 rfl, fun hnext => ?_⟩
      exact absurd (hquiet'.marks.1.symm.trans hnext) Bool.false_ne_true
    · cases hcode

/-- The next visit after a part of a run that succeeds as a whole. -/
theorem runTo_succ {segments : List Segment} {last : Simulation}
    (h : Lower.visitAll (setting.frame m) setting.policy 0 0 m.body
      (.start m setting.owner.delegateBindings) = .ok segments last)
    {q : Nat} {i : Instr} (hi : m.body[q]? = some i) :
    ∃ before s segment t line, runTo setting m q = .ok before s ∧ Awaits (some i.offset) s ∧
      runTo setting m (q + 1) = .ok (before ++ [segment]) t ∧
      Lower.visit { setting.frame m with position := q } setting.policy line i s =
        .ok (some segment) t := by
  have hstart := Lower.awaits_start m setting.owner.delegateBindings
  obtain ⟨t, hrun, _⟩ := Lower.visitAll_take hstart h (q + 1)
  have htake : m.body.take (q + 1) = m.body.take q ++ [i] := by
    rw [List.take_add_one, hi, Option.toList_some]
  have hlength : (m.body.take q).length = q := by
    have hlt := (List.getElem?_eq_some_iff.1 hi).1
    simp only [List.length_take]
    omega
  have hbody : m.body = m.body.take q ++ m.body.drop q := (List.take_append_drop q _).symm
  have hnext : (m.body.drop q).head? = some i := by rw [List.head?_drop, hi]
  rw [show (setting.frame m).method.body = m.body from rfl, htake] at hrun
  obtain ⟨line, before, others, s, hbefore, hothers, hsegments⟩ := Lower.visitAll_append hrun
  rw [hlength, Nat.zero_add] at hothers
  obtain ⟨made, t', hvisit, hrest⟩ := bind_ok hothers
  obtain ⟨_, _, hnil, hpure⟩ := bind_ok hrest
  cases hnil
  cases hpure
  have hawaits := ((Lower.runs_visitAll [] (m.body.take q) (m.body.drop q) hbody 0).ok
    (hstart _) hbefore).1
  rw [hnext] at hawaits
  obtain ⟨_, segment, rfl, _⟩ := (Lower.runs_visit _).ok hawaits hvisit
  refine ⟨before, s, segment, t, _, hbefore, hawaits, ?_, hvisit⟩
  rw [runTo, htake, hrun, hsegments]
  rfl

/-- Every instruction is visited, and one that is absorbed is so by the instruction in front of
it. -/
theorem exists_visitedAs {segments : List Segment} {last : Simulation}
    (h : Lower.visitAll (setting.frame m) setting.policy 0 0 m.body
      (.start m setting.owner.delegateBindings) = .ok segments last)
    {q : Nat} {i : Instr} (hi : m.body[q]? = some i) :
    ∃ fate, VisitedAs setting m q i fate ∧ (fate = .absorbed → ∃ p j, q = p + 1 ∧
      m.body[p]? = some j ∧ VisitedAs setting m p j .processed) := by
  obtain ⟨before, s, segment, t, line, hbefore, hawaits, hrun, hvisit⟩ := runTo_succ h hi
  obtain ⟨hoffset, fate, hhandled, _⟩ := visit_handled hawaits hvisit
  refine ⟨fate, ⟨before, s, segment, t, hbefore, hrun, hoffset, hhandled⟩, ?_⟩
  rintro rfl
  cases hhandled with
  | absorbed hskip hempty =>
    cases q with
    | zero =>
      cases hbefore
      cases hskip
    | succ p =>
      obtain ⟨hlt, _⟩ := List.getElem?_eq_some_iff.1 hi
      have hj : m.body[p]? = some m.body[p] := List.getElem?_eq_getElem (by omega)
      obtain ⟨before', s', segment', t', _, hbefore', hawaits', hrun', hvisit'⟩ := runTo_succ h hj
      obtain ⟨hoffset', fate', hhandled', hprocessed⟩ := visit_handled hawaits' hvisit'
      cases hbefore.symm.trans hrun'
      cases hprocessed hskip
      exact ⟨p, m.body[p], rfl, hj, before', s', segment', _, hbefore', hrun', hoffset', hhandled'⟩

theorem Emitted.renderWithoutDelta_placed {i : Instr} {j : Instruction} (h : Emitted i j)
    (owner : String) (land : UInt32 → Nat) (k : Nat) :
    (placed owner land k j).renderWithoutDelta = j.renderWithoutDelta := by
  cases h with
  | plain hplain =>
    simp only [placed, hplain.target]
    rfl
  | jump hcode htarget => rfl
  | jumpIf expected condition hcode htarget => cases expected <;> rfl

theorem Emitted.target_cases {i : Instr} {j : Instruction} (h : Emitted i j) :
    j.target = none ∧ j.opcode.isJump = false ∨
      j.opcode.isJump = true ∧ i.code.category = .branch ∧
        ∃ offset, i.target? = some offset ∧ j.target = some (.source offset) := by
  cases h with
  | plain hplain => exact .inl ⟨hplain.target, by rw [Opcode.isJump, hplain.opcode]; rfl⟩
  | jump hcode htarget => exact .inr ⟨rfl, hcode, _, htarget, rfl⟩
  | jumpIf expected condition hcode htarget =>
    exact .inr ⟨by cases expected <;> rfl, hcode, _, htarget, rfl⟩

theorem Emitted.isSome_target {i : Instr} {j : Instruction} (h : Emitted i j) :
    j.target.isSome = j.opcode.isJump := by
  obtain ⟨htarget, hjump⟩ | ⟨hjump, _, offset, _, htarget⟩ := h.target_cases <;>
    rw [htarget, hjump] <;> rfl

/-- Where a row jumps, a branch leads. -/
theorem Emitted.exists_branch {i : Instr} {j : Instruction} (h : Emitted i j) {label : String}
    (hlabel : targetLabel j = some label) :
    ∃ offset, i.code.category = .branch ∧ i.target? = some offset ∧
      j.target = some (.source offset) ∧ label = labelName offset.toNat := by
  obtain ⟨htarget, _⟩ | ⟨_, hcode, offset, hoffset, htarget⟩ := h.target_cases
  · rw [targetLabel, htarget] at hlabel
    cases hlabel
  · rw [targetLabel, htarget] at hlabel
    cases hlabel
    exact ⟨offset, hcode, hoffset, htarget, rfl⟩

theorem codeRows_map_ofInstruction (label : Instruction → Option String)
    (code : List Instruction) :
    codeRows (code.map fun j => Row.ofInstruction j (label j)) =
      code.map fun j => Row.ofInstruction j (label j) := by
  rw [codeRows, List.filter_eq_self, List.forall_mem_map]
  exact fun _ _ => rfl

theorem labels_map_ofInstruction (label : Instruction → Option String) (code : List Instruction) :
    labels (code.map fun j => Row.ofInstruction j (label j)) = [] := by
  rw [labels, List.filterMap_eq_nil_iff, List.forall_mem_map]
  exact fun _ _ => rfl

theorem labels_rows (segment : Segment) :
    labels segment.rows = [labelName segment.offset.toNat] := by
  simp [Segment.rows, labels_map_ofInstruction]

theorem Segment.Serves.codeRows {i : Instr} {segment : Segment} (h : segment.Serves i) :
    Listing.codeRows segment.rows =
      segment.instructions.map fun j => Row.ofInstruction j (targetLabel j) := by
  -- no label belongs to what carries items over: it does not jump
  have hentry : (segment.entry.map fun j => Row.ofInstruction j none) =
      segment.entry.map fun j => Row.ofInstruction j (targetLabel j) := by
    apply List.map_congr_left
    intro j hj
    rw [targetLabel, (h.entry j hj).target]
    rfl
  simp [Segment.rows, Segment.instructions, codeRows_map_ofInstruction, ← hentry]

section

variable {instrs : List Instr} {segments : List Segment}
  (h : List.Forall₂ Segment.Serves instrs segments)

include h

theorem codeRows_segments :
    codeRows (segments.flatMap Segment.rows) =
      (segments.flatMap Segment.instructions).map fun j => Row.ofInstruction j (targetLabel j) := by
  induction h with
  | nil => rfl
  | cons hfirst _ ih => simp [hfirst.codeRows, ih]

theorem offsets_segments : segments.map Segment.offset = instrs.map Instr.offset := by
  induction h with
  | nil => rfl
  | cons hfirst _ ih => simp [hfirst.offset, ih]

theorem targetLabel_mem_usedLabels {j : Instruction}
    (hj : j ∈ segments.flatMap Segment.instructions) {label : String}
    (hlabel : targetLabel j = some label) (method : String) :
    label ∈ usedLabels { method, rows := segments.flatMap Segment.rows } := by
  have hrow : Row.ofInstruction j (targetLabel j) ∈ codeRows (segments.flatMap Segment.rows) := by
    rw [codeRows_segments h]
    exact List.mem_map_of_mem hj
  refine List.mem_filterMap.2 ⟨_, List.mem_of_mem_filter hrow, ?_⟩
  rw [hlabel]
  rfl

theorem labels_segments :
    labels (segments.flatMap Segment.rows) = instrs.map fun i => labelName i.offset.toNat := by
  induction h with
  | nil => rfl
  | cons hfirst _ ih => simp [labels_rows, hfirst.offset, ih]

/-- The label of a segment stands behind what carries items over to it. -/
theorem exists_label_row {q : Nat} {segment : Segment} (hq : segments[q]? = some segment) :
    ∃ front back, segments.flatMap Segment.rows =
        front ++ .label (labelName segment.offset.toNat) :: back ∧
      (codeRows front).length = startOf segments q + segment.entry.length := by
  obtain ⟨hlt, hget⟩ := List.getElem?_eq_some_iff.1 hq
  refine ⟨(segments.take q).flatMap Segment.rows ++
      segment.entry.map fun j => Row.ofInstruction j none,
    (segment.code.map fun j => Row.ofInstruction j (targetLabel j)) ++
      (segments.drop (q + 1)).flatMap Segment.rows, ?_, ?_⟩
  · conv_lhs => rw [← List.take_append_drop q segments, List.drop_eq_getElem_cons hlt, hget]
    simp [Segment.rows]
  · rw [codeRows_append, List.length_append, codeRows_segments (List.forall₂_take q h),
      codeRows_map_ofInstruction, List.length_map, List.length_map]
    rfl

variable (hascending : instrs.Pairwise fun a b => a.offset < b.offset)

include hascending

theorem nodup_labels_segments : (labels (segments.flatMap Segment.rows)).Nodup := by
  rw [labels_segments h, List.Nodup, List.pairwise_map]
  refine hascending.imp fun {a b} hlt heq => ?_
  have hoffset : a.offset = b.offset := UInt32.toNat_inj.1 (labelName_injective heq)
  exact UInt32.lt_irrefl _ (hoffset ▸ hlt)

/-- The label of an instruction marks the place where jumps to it land. -/
theorem marks_segments {i : Instr} (hi : i ∈ instrs) :
    Marks (segments.flatMap Segment.rows) (labelName i.offset.toNat)
      (landingOf segments i.offset) := by
  have hmem : i.offset ∈ segments.map Segment.offset := by
    rw [offsets_segments h]
    exact List.mem_map_of_mem hi
  obtain ⟨segment, hsegment, hoffset⟩ := List.mem_map.1 hmem
  obtain ⟨q, hq⟩ := List.mem_iff_getElem?.1 hsegment
  have hascending' : segments.Pairwise fun a b => a.offset < b.offset := by
    rw [← List.pairwise_map (f := Segment.offset), offsets_segments h, List.pairwise_map]
    exact hascending
  obtain ⟨front, back, hrows, hfront⟩ := exists_label_row h hq
  have hnodup := nodup_labels_segments h hascending
  rw [hrows] at hnodup
  have hmarks := marks_of_nodup hnodup
  rwa [← hoffset, hrows, landingOf, landing_boundaries hascending' hq, Nat.zero_add, ← hfront]

end

/-- Body, listing and line numbers of a method tell of the same code. -/
structure Concordant (setting : Setting) (m : MethodDecl) (result : LoweredMethod) : Prop where
  rows : (codeRows result.listing.rows).length = result.method.body.instructions.length
  lines : result.lines.length = result.method.body.instructions.length
  texts : ∀ (k : Nat) (i : Instruction), result.method.body.instructions[k]? = some i →
    ∃ jump, (codeRows result.listing.rows)[k]? = some (.code i.renderWithoutDelta jump) ∧
      jump.isSome = i.opcode.isJump
  labels : setting.optimizeLabels = false →
    labels result.listing.rows = m.body.map fun i => labelName i.offset.toNat
  visits : ∀ (q : Nat) (i : Instr), m.body[q]? = some i → ∃ fate, VisitedAs setting m q i fate ∧
    (fate = .absorbed → ∃ p j, q = p + 1 ∧ m.body[p]? = some j ∧
      VisitedAs setting m p j .processed)
  jumps : (m.body.Pairwise fun a b => a.offset < b.offset) →
    (∀ i ∈ m.body, i.code.category = .branch → ∀ offset, i.target? = some offset →
      ∃ j ∈ m.body, j.offset = offset) →
    ∀ (k : Nat) (i : Instruction) (text : String) (jump : LabelRef),
      result.method.body.instructions[k]? = some i →
      (codeRows result.listing.rows)[k]? = some (.code text (some jump)) →
      ∃ t, i.target = some (.position t) ∧ Marks result.listing.rows jump.label t

/-- Whether or not labels are optimized, the code stays, and jumps lead to where they led. -/
theorem exists_relabel (optimizeLabels : Bool) (l : Listing) :
    ∃ f : String → String,
      codeRows (if optimizeLabels then l.optimize.2 else l).rows =
        (codeRows l.rows).map (Row.relabel f) ∧
      ((Listing.labels l.rows).Nodup → ∀ name ∈ l.usedLabels, ∀ t, Marks l.rows name t →
        Marks (if optimizeLabels then l.optimize.2 else l).rows (f name) t) := by
  cases optimizeLabels with
  | true =>
    exact ⟨l.standIn, codeRows_optimize l, fun hnodup _ hused _ h => h.optimize hused hnodup⟩
  | false =>
    have hid : Row.relabel id = id := by
      funext row
      cases row with
      | label name => rfl
      | code text jump => cases jump <;> rfl
    exact ⟨id, by rw [hid, List.map_id]; rfl, fun _ _ _ _ h => h⟩

/-- Body, listing and line numbers of a lowered method agree, and its jumps lead to the same places
in the body and in the listing. -/
theorem lowered_concordant {setting : Setting} {m : MethodDecl} {result : LoweredMethod}
    (hnative : m.isNative = false) (h : lowerMethod setting m = .ok result) :
    Concordant setting m result := by
  rw [lowerMethod, if_neg (Bool.eq_false_iff.1 hnative)] at h
  obtain ⟨segments, t, hrun, hresult⟩ := lowerCode_ok h
  cases hresult
  have hserves : List.Forall₂ Segment.Serves m.body segments :=
    Lower.visitAll_serves (Lower.awaits_start m _) hrun
  obtain ⟨f, hcode, hmarks⟩ := exists_relabel setting.optimizeLabels
    { method := m.name, rows := segments.flatMap Segment.rows }
  rw [codeRows_segments hserves, List.map_map] at hcode
  constructor
  case rows => simp only [hcode, List.length_map, length_assemble]
  case lines =>
    simp only [length_assemble, List.length_flatMap, Segment.lines, List.length_replicate]
  case texts =>
    intro k i hi
    obtain ⟨j, hj, ⟨source, _, hemitted⟩, rfl⟩ := exists_assembled hserves hi
    simp only [hcode, List.getElem?_map, hj, Option.map_some, Function.comp,
      Row.relabel_ofInstruction, hemitted.renderWithoutDelta_placed]
    refine ⟨_, rfl, ?_⟩
    rw [placed_opcode, ← hemitted.isSome_target, Option.isSome_map, Option.isSome_map,
      targetLabel, Option.isSome_map]
  case labels =>
    intro hoptimize
    simp only [hoptimize]
    exact labels_segments hserves
  case visits => exact fun q i hi => exists_visitedAs hrun hi
  case jumps =>
    intro hascending htargets k i text jump hi hrow
    obtain ⟨j, hj, ⟨source, hmem, hemitted⟩, rfl⟩ := exists_assembled hserves hi
    simp only [hcode, List.getElem?_map, hj, Option.map_some, Function.comp,
      Row.relabel_ofInstruction] at hrow
    cases hlabel : targetLabel j with
    | none =>
      rw [hlabel] at hrow
      cases hrow
    | some label =>
      rw [hlabel] at hrow
      cases hrow
      obtain ⟨offset, hcategory, hoffset, htarget, rfl⟩ := hemitted.exists_branch hlabel
      obtain ⟨there, hthere, rfl⟩ := htargets source hmem hcategory offset hoffset
      have hused := targetLabel_mem_usedLabels hserves (List.mem_of_getElem? hj) hlabel m.name
      exact ⟨_, placed_target _ _ _ htarget, hmarks (nodup_labels_segments hserves hascending) _
        hused _ (marks_segments hserves hascending hthere)⟩

theorem exists_clamp_target (i : Instr) (hi : i ∈ clamp.body) (offset : UInt32)
    (h : i.target? = some offset) : ∃ j ∈ clamp.body, j.offset = offset := by
  have hall : (clamp.body.all fun i => i.target?.all fun offset =>
      clamp.body.any fun j => j.offset == offset) = true := by
    decide
  have hany := List.all_eq_true.1 hall i hi
  simpa only [h, Option.all_some, List.any_eq_true, beq_iff_eq] using hany

/-- In the optimized listing too, the jump to the store leads behind the assignment that the other
way needs. -/
theorem lowered_clamp_concordant :
    ∃ result, lowerMethod lenientSetting clamp = .ok result ∧
      Concordant lenientSetting clamp result ∧
      ∃ text jump, (codeRows result.listing.rows)[3]? = some (.code text (some jump)) ∧
        Marks result.listing.rows jump.label 6 := by
  have hcode : ((lowerMethod lenientSetting clamp).toOption.map fun result =>
      ((codeRows result.listing.rows)[3]?, result.method.body.instructions[3]?.map
        Instruction.target)) =
      some (some (.code "jmp" (some ⟨"_label16", false⟩)), some (some (.position 6))) := by
    decide +kernel
  cases h : lowerMethod lenientSetting clamp with
  | error fault =>
    rw [h] at hcode
    cases hcode
  | ok result =>
    simp only [h, Except.toOption, Option.map_some, Option.some.injEq, Prod.mk.injEq,
      Option.map_eq_some_iff] at hcode
    obtain ⟨hrow, i, hi, htarget⟩ := hcode
    have hconcordant := lowered_concordant rfl h
    obtain ⟨t, ht, hmarks⟩ := hconcordant.jumps (by decide)
      (fun i hi _ => exists_clamp_target i hi) 3 i _ _ hi hrow
    cases htarget.symm.trans ht
    exact ⟨result, rfl, hconcordant, _, _, hrow, hmarks⟩

end Lowering

end PapyrusBackend
