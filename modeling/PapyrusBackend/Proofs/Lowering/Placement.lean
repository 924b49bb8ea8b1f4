import PapyrusBackend.Lowering.MethodCode

namespace PapyrusBackend.Lowering

def startOf (segments : List Segment) (k : Nat) : Nat :=
  ((segments.take k).flatMap Segment.instructions).length

theorem startOf_zero (segments : List Segment) : startOf segments 0 = 0 := rfl

theorem startOf_cons (segment : Segment) (segments : List Segment) (k : Nat) :
    startOf (segment :: segments) (k + 1) = segment.instructions.length + startOf segments k := by
  rw [startOf, List.take_succ_cons, List.flatMap_cons, List.length_append, startOf]

theorem startOf_succ {segments : List Segment} {k : Nat} {segment : Segment}
    (h : segments[k]? = some segment) :
    startOf segments (k + 1) = startOf segments k + segment.instructions.length := by
  rw [startOf, List.take_add_one, h, List.flatMap_append, List.length_append, startOf]
  simp

theorem getElem?_flatMap_instructions {segments : List Segment} {k : Nat} {segment : Segment}
    (h : segments[k]? = some segment) {n : Nat} {i : Instruction}
    (hi : segment.instructions[n]? = some i) :
    (segments.flatMap Segment.instructions)[startOf segments k + n]? = some i := by
  induction segments generalizing k with
  | nil => cases h
  | cons head rest ih =>
    cases k with
    | zero =>
      cases h
      rw [startOf_zero, Nat.zero_add, List.flatMap_cons,
        List.getElem?_append_left (List.getElem?_eq_some_iff.1 hi).1, hi]
    | succ k =>
      rw [startOf_cons, List.flatMap_cons, Nat.add_assoc,
        List.getElem?_append_right (Nat.le_add_right _ _), Nat.add_sub_cancel_left]
      exact ih h

theorem exists_segment {segments : List Segment} {k : Nat} {i : Instruction}
    (h : (segments.flatMap Segment.instructions)[k]? = some i) :
    ∃ p segment n, segments[p]? = some segment ∧ segment.instructions[n]? = some i ∧
      k = startOf segments p + n := by
  induction segments generalizing k with
  | nil => cases h
  | cons head rest ih =>
    rw [List.flatMap_cons] at h
    by_cases hk : k < head.instructions.length
    · rw [List.getElem?_append_left hk] at h
      exact ⟨0, head, k, rfl, h, (Nat.zero_add k).symm⟩
    · rw [List.getElem?_append_right (Nat.not_lt.1 hk)] at h
      obtain ⟨p, segment, n, hp, hn, hkn⟩ := ih h
      refine ⟨p + 1, segment, n, hp, hn, ?_⟩
      rw [startOf_cons]
      omega

/-- A jump leads to the code of the first segment at or behind its offset. -/
theorem landing_boundaries_findIdx (segments : List Segment) (start last : Nat) (offset : UInt32) :
    Body.landing (Segment.boundaries start segments) last offset =
      let q := segments.findIdx fun segment => offset ≤ segment.offset
      segments[q]?.elim last fun segment => start + startOf segments q + segment.entry.length := by
  induction segments generalizing start with
  | nil => rfl
  | cons head rest ih =>
    by_cases hhead : offset ≤ head.offset
    · simp [Body.landing, Segment.boundaries, List.findIdx_cons, hhead, startOf_zero]
    · have hskip : Body.landing (Segment.boundaries start (head :: rest)) last offset =
          Body.landing (Segment.boundaries (start + head.instructions.length) rest) last offset := by
        simp [Body.landing, Segment.boundaries, hhead]
      rw [hskip, ih]
      simp only [List.findIdx_cons, hhead, decide_false, cond_false, startOf_cons,
        List.getElem?_cons_succ, Nat.add_assoc]

/-- The segments stand in the order of their offsets, so that a jump finds its own. -/
theorem landing_boundaries {segments : List Segment} {last start k : Nat} {segment : Segment}
    (hascending : segments.Pairwise fun a b => a.offset < b.offset)
    (h : segments[k]? = some segment) :
    Body.landing (Segment.boundaries start segments) last segment.offset =
      start + startOf segments k + segment.entry.length := by
  obtain ⟨hk, hsegment⟩ := List.getElem?_eq_some_iff.1 h
  have hindex : (segments.findIdx fun other => segment.offset ≤ other.offset) = k := by
    rw [List.findIdx_eq hk, hsegment]
    refine ⟨by simp, fun j hj => ?_⟩
    have hlt := List.pairwise_iff_getElem.1 hascending j k (Nat.lt_trans hj hk) hk hj
    rw [hsegment] at hlt
    rw [decide_eq_false_iff_not, UInt32.not_le]
    exact hlt
  simp only [landing_boundaries_findIdx, hindex, h, Option.elim_some]

def landingOf (segments : List Segment) : UInt32 → Nat :=
  Body.landing (Segment.boundaries 0 segments) (segments.flatMap Segment.instructions).length

theorem landingOf_offset {segments : List Segment} {k : Nat} {segment : Segment}
    (hascending : segments.Pairwise fun a b => a.offset < b.offset)
    (h : segments[k]? = some segment) (hentry : segment.entry = []) :
    landingOf segments segment.offset = startOf segments k := by
  rw [landingOf, landing_boundaries hascending h, hentry]
  exact Nat.zero_add _

def placed (owner : String) (land : UInt32 → Nat) (position : Nat) (i : Instruction) :
    Instruction :=
  let target := match i.target with
    | some (.source offset) => some (.position (land offset))
    | target => target
  { i with target, offset := position, method := owner }.withDelta

section

variable (name : String) (declared : List TypedName) (segments : List Segment)

theorem assemble_getElem? (p : Nat) :
    (assemble name declared segments).instructions[p]? =
      (segments.flatMap Segment.instructions)[p]?.map
        (placed name (landingOf segments) p) := by
  simp only [assemble, Body.append, Body.stamp, Body.resolve, Body.renumber, Body.length,
    List.nil_append, List.length_nil, List.length_mapIdx, List.getElem?_mapIdx, List.getElem?_map,
    Option.map_map]
  congr 1
  funext i
  simp only [Function.comp, placed, landingOf]
  cases i.target with
  | none => rfl
  | some target => cases target <;> rfl

theorem assemble_fetch {k : Nat} {segment : Segment} (h : segments[k]? = some segment) {n : Nat}
    {i : Instruction} (hi : segment.instructions[n]? = some i) :
    (assemble name declared segments).instructions[startOf segments k + n]? =
      some (placed name (landingOf segments) (startOf segments k + n) i) := by
  rw [assemble_getElem?, getElem?_flatMap_instructions h hi]
  rfl

theorem assemble_end :
    (assemble name declared segments).instructions[startOf segments segments.length]? = none := by
  rw [assemble_getElem?, startOf, List.take_length, List.getElem?_eq_none (Nat.le_refl _)]
  rfl

end

def concluded (optimizeLabels : Bool) (m : Source.MethodDecl) :
    EStateM.Result Fault Simulation (List Segment) → Except Fault LoweredMethod
  | .error fault _ => .error fault
  | .ok segments s =>
    let listing : Listing := { method := m.name, rows := segments.flatMap Segment.rows }
    .ok
      { method := { signature m with body := assemble m.name s.variables segments }
        listing := if optimizeLabels then listing.optimize.2 else listing
        lines := segments.flatMap Segment.lines
        warnings := s.warnings ++ leftovers s.stack }

theorem lowerCode_eq (setting : Setting) (m : Source.MethodDecl) :
    lowerCode setting m = concluded setting.optimizeLabels m
      (Lower.visitAll (setting.frame m) setting.policy 0 0 m.body
        (.start m setting.owner.delegateBindings)) := by
  rw [lowerCode]
  split <;> next hrun => rw [hrun]; rfl

theorem lowerCode_ok {setting : Setting} {m : Source.MethodDecl} {result : LoweredMethod}
    (h : lowerCode setting m = .ok result) :
    ∃ segments s, Lower.visitAll (setting.frame m) setting.policy 0 0 m.body
        (.start m setting.owner.delegateBindings) = .ok segments s ∧
      concluded setting.optimizeLabels m (.ok segments s) = .ok result := by
  rw [lowerCode_eq] at h
  cases hrun : Lower.visitAll (setting.frame m) setting.policy 0 0 m.body
      (.start m setting.owner.delegateBindings) with
  | error fault s =>
    rw [hrun] at h
    cases h
  | ok segments s =>
    rw [hrun] at h
    exact ⟨segments, s, rfl, h⟩

end PapyrusBackend.Lowering
