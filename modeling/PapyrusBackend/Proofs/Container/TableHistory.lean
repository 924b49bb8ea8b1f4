import PapyrusBackend.Proofs.Container.Interning

namespace PapyrusBackend.StringTable

def internAll (t : StringTable) (texts : List String) : StringTable :=
  texts.foldl (fun t s => (t.intern s).2) t

theorem internAll_cons (t : StringTable) (s : String) (texts : List String) :
    t.internAll (s :: texts) = (t.intern s).2.internAll texts := rfl

theorem internAll_append (t : StringTable) (first second : List String) :
    t.internAll (first ++ second) = (t.internAll first).internAll second := List.foldl_append

variable {t : StringTable} {s : String} {place : UInt16}

theorem Sound.intern (h : t.Sound) (s : String) : (t.intern s).2.Sound := by
  obtain ⟨place, hintern, -⟩ | ⟨hnew, hroom, hintern⟩ | ⟨-, -, hintern⟩ := h.intern_cases s
  · rwa [hintern]
  · rw [hintern]
    exact h.add hnew hroom
  · rwa [hintern]

theorem Sound.prefix_intern (h : t.Sound) (s : String) : t.toList <+: (t.intern s).2.toList := by
  obtain ⟨place, hintern, -⟩ | ⟨-, -, hintern⟩ | ⟨-, -, hintern⟩ := h.intern_cases s
  · exact ⟨[], by rw [hintern, List.append_nil]⟩
  · exact ⟨[s], by rw [hintern, toList_add]⟩
  · exact ⟨[], by rw [hintern, List.append_nil]⟩

/-- A text is found at the place that it was given. -/
theorem Sound.get?_intern (h : t.Sound) (hplace : (t.intern s).1 = some place) :
    (t.intern s).2.get? place = some s := by
  obtain ⟨found, hintern, hget⟩ | ⟨-, hroom, hintern⟩ | ⟨-, -, hintern⟩ := h.intern_cases s
  · rw [hintern] at hplace ⊢
    rwa [← Option.some.inj hplace]
  · rw [hintern] at hplace ⊢
    rw [← Option.some.inj hplace, get?_add, if_pos (UInt16.toNat_ofNat_of_lt' hroom)]
  · rw [hintern] at hplace
    cases hplace

/-- What stands at a place stays there while the table grows. -/
theorem get?_of_isPrefix {t' : StringTable} (h : t.toList <+: t'.toList)
    (hget : t.get? place = some s) : t'.get? place = some s := by
  rw [get?_eq] at hget ⊢
  obtain ⟨more, hmore⟩ := h
  rw [← hmore, List.getElem?_append_left (List.getElem?_eq_some_iff.mp hget).1, hget]

theorem Sound.internAll (h : t.Sound) (texts : List String) : (t.internAll texts).Sound := by
  induction texts generalizing t with
  | nil => exact h
  | cons s texts ih =>
    rw [internAll_cons]
    exact ih (h.intern s)

theorem Sound.prefix_internAll (h : t.Sound) (texts : List String) :
    t.toList <+: (t.internAll texts).toList := by
  induction texts generalizing t with
  | nil => exact List.prefix_refl _
  | cons s texts ih =>
    rw [internAll_cons]
    exact (h.prefix_intern s).trans (ih (h.intern s))

theorem Sound.get?_internAll (h : t.Sound) (texts : List String) (hget : t.get? place = some s) :
    (t.internAll texts).get? place = some s := get?_of_isPrefix (h.prefix_internAll texts) hget

/-- In a sound table, the place of a text is its position. -/
theorem Sound.position_iff (h : t.Sound) (s : String) (k : Nat) :
    t.places[s]?.map UInt16.toNat = some k ↔ t.toList[k]? = some s := by
  constructor
  · intro hk
    obtain ⟨place, hplace, rfl⟩ := Option.map_eq_some_iff.mp hk
    rw [← get?_eq]
    exact (h.places s place).mp hplace
  · intro hk
    have hlt : k < t.size := by
      rw [← length_toList]
      exact (List.getElem?_eq_some_iff.mp hk).1
    have hnat : (UInt16.ofNat k).toNat = k :=
      UInt16.toNat_ofNat_of_lt' (Nat.lt_of_lt_of_le hlt h.bounded)
    have hget : t.get? (UInt16.ofNat k) = some s := by rw [get?_eq, hnat, hk]
    rw [(h.places s _).mpr hget, Option.map_some, hnat]

theorem Sound.intern_of_mem (h : t.Sound) (hs : s ∈ t.toList) :
    ∃ place, t.intern s = (some place, t) ∧ place.toNat = t.toList.idxOf s := by
  have hfirst : t.toList[t.toList.idxOf s]? = some s := by
    rw [List.getElem?_eq_getElem (List.idxOf_lt_length_of_mem hs), List.getElem_idxOf]
  obtain ⟨place, hplace, hnat⟩ := Option.map_eq_some_iff.mp ((h.position_iff s _).mpr hfirst)
  refine ⟨place, ?_, hnat⟩
  simp only [StringTable.intern, hplace]

theorem Sound.intern_of_room (h : t.Sound) (hs : s ∉ t.toList) (hroom : t.size < capacity) :
    ∃ place, (t.intern s).1 = some place ∧ place.toNat = t.size ∧
      (t.intern s).2.toList = t.toList ++ [s] := by
  obtain ⟨place, -, hget⟩ | ⟨-, -, hintern⟩ | ⟨-, hfull, -⟩ := h.intern_cases s
  · rw [get?_eq] at hget
    exact absurd (List.mem_of_getElem? hget) hs
  · rw [hintern]
    exact ⟨_, rfl, UInt16.toNat_ofNat_of_lt' hroom, toList_add t s⟩
  · omega

theorem Sound.intern_eq_none_iff (h : t.Sound) (s : String) :
    (t.intern s).1 = none ↔ s ∉ t.toList ∧ t.size = capacity := by
  obtain ⟨place, hintern, hget⟩ | ⟨-, hroom, hintern⟩ | ⟨hnew, hfull, hintern⟩ := h.intern_cases s
  · rw [get?_eq] at hget
    have hs : s ∈ t.toList := List.mem_of_getElem? hget
    simp [hintern, hs]
  · simp [hintern, Nat.ne_of_lt hroom]
  · simp [hintern, hnew, hfull]

theorem intern_of_eq_none (h : (t.intern s).1 = none) : (t.intern s).2 = t := by
  rw [StringTable.intern] at h ⊢
  split at h
  · cases h
  · split at h
    · cases h
    · next hfull => simp only [if_neg hfull]

/-- After any history a table is a bijection between its texts and their positions, in which nothing
that was given out has moved, and it refuses a text only for want of room. -/
theorem internAll_bijective (texts : List String) :
    (internAll {} texts).toList.Nodup ∧
    (∀ s k, (internAll {} texts).places[s]?.map UInt16.toNat = some k ↔
      (internAll {} texts).toList[k]? = some s) ∧
    (∀ earlier s later place, texts = earlier ++ s :: later →
      ((internAll {} earlier).intern s).1 = some place →
      (internAll {} texts).get? place = some s) ∧
    (∀ s ∈ (internAll {} texts).toList, ∃ place,
      (internAll {} texts).intern s = (some place, internAll {} texts) ∧
      place.toNat = (internAll {} texts).toList.idxOf s) ∧
    (∀ s, s ∉ (internAll {} texts).toList → (internAll {} texts).size < 65536 → ∃ place,
      ((internAll {} texts).intern s).1 = some place ∧
      place.toNat = (internAll {} texts).size ∧
      ((internAll {} texts).intern s).2.toList = (internAll {} texts).toList ++ [s]) ∧
    ∀ s, (((internAll {} texts).intern s).1 = none ↔
        s ∉ (internAll {} texts).toList ∧ (internAll {} texts).size = 65536) ∧
      (((internAll {} texts).intern s).1 = none →
        ((internAll {} texts).intern s).2 = internAll {} texts) := by
  have hsound := sound_empty.internAll texts
  refine ⟨hsound.nodup, hsound.position_iff, ?_, fun s => hsound.intern_of_mem,
    fun s => hsound.intern_of_room, fun s => ⟨hsound.intern_eq_none_iff s, intern_of_eq_none⟩⟩
  rintro earlier s later place rfl hplace
  have hearlier := sound_empty.internAll earlier
  rw [internAll_append, internAll_cons]
  exact (hearlier.intern s).get?_internAll later (hearlier.get?_intern hplace)

theorem internAll_bijective_pair :
    ∃ place, ((internAll {} []).intern "a").1 = some place ∧ place.toNat = 0 ∧
      (internAll {} ["a", "b"]).get? place = some "a" := by
  obtain ⟨-, -, -, -, hroom, -⟩ := internAll_bijective []
  obtain ⟨place, hplace, hnat, -⟩ := hroom "a" List.not_mem_nil (by decide)
  obtain ⟨-, -, hkept, -⟩ := internAll_bijective ["a", "b"]
  exact ⟨place, hplace, hnat, hkept [] "a" ["b"] place rfl hplace⟩

end PapyrusBackend.StringTable
