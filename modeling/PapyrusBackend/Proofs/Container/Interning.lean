import Mathlib.Data.List.Nodup
import PapyrusBackend.Container.StringTable

namespace PapyrusBackend.StringTable

/-- The places of a table say where its texts are. -/
structure Sound (t : StringTable) : Prop where
  bounded : t.size ≤ capacity
  places : ∀ s place, t.places[s]? = some place ↔ t.get? place = some s

theorem length_toList (t : StringTable) : t.toList.length = t.size := Array.length_toList

theorem get?_eq (t : StringTable) (place : UInt16) : t.get? place = t.toList[place.toNat]? := by
  simp only [get?, toList, Array.getElem?_toList]

theorem toList_ofList (strings : List String) : (ofList strings).toList = strings := by
  simp only [toList, ofList, List.toList_toArray]

theorem sound_empty : Sound {} where
  bounded := Nat.zero_le _
  places s place := by
    have hget : get? {} place = none := Array.getElem?_eq_none (Nat.zero_le _)
    rw [hget]
    simp only [Std.HashMap.getElem?_empty, reduceCtorEq]

/-- A place of 16 bits tells any two texts of a bounded table apart. -/
theorem Sound.mem_iff {t : StringTable} (h : t.Sound) (s : String) :
    s ∈ t.toList ↔ ∃ place, t.places[s]? = some place := by
  constructor
  · intro hs
    obtain ⟨k, hk, he⟩ := List.getElem_of_mem hs
    have hsize : k < 65536 := by
      have hb := h.bounded
      rw [length_toList] at hk
      exact Nat.lt_of_lt_of_le hk hb
    have hnat : (UInt16.ofNat k).toNat = k := UInt16.toNat_ofNat_of_lt' hsize
    refine ⟨UInt16.ofNat k, (h.places s _).mpr ?_⟩
    rw [get?_eq, hnat, List.getElem?_eq_getElem hk, he]
  · rintro ⟨place, hp⟩
    have hg := (h.places s place).mp hp
    rw [get?_eq] at hg
    exact List.mem_of_getElem? hg

theorem Sound.nodup {t : StringTable} (h : t.Sound) : t.toList.Nodup := by
  rw [List.nodup_iff_getElem?_ne_getElem?]
  intro i j hij hj he
  have hi : i < t.toList.length := Nat.lt_trans hij hj
  have hlen : t.toList.length ≤ 65536 := by rw [length_toList]; exact h.bounded
  have hni : (UInt16.ofNat i).toNat = i := UInt16.toNat_ofNat_of_lt' (Nat.lt_of_lt_of_le hi hlen)
  have hnj : (UInt16.ofNat j).toNat = j := UInt16.toNat_ofNat_of_lt' (Nat.lt_of_lt_of_le hj hlen)
  -- Both positions are the one place that the table has for the text.
  have hpi := (h.places t.toList[i] (UInt16.ofNat i)).mpr (by
    rw [get?_eq, hni, List.getElem?_eq_getElem hi])
  have hpj := (h.places t.toList[i] (UInt16.ofNat j)).mpr (by
    rw [get?_eq, hnj, ← he, List.getElem?_eq_getElem hi])
  rw [hpi] at hpj
  have hp := congrArg UInt16.toNat (Option.some.inj hpj)
  omega

def add (t : StringTable) (s : String) : StringTable :=
  { strings := t.strings.push s, places := t.places.insert s (UInt16.ofNat t.strings.size) }

theorem toList_add (t : StringTable) (s : String) : (t.add s).toList = t.toList ++ [s] := by
  simp only [add, toList, Array.toList_push]

theorem get?_add (t : StringTable) (s : String) (place : UInt16) :
    (t.add s).get? place = if place.toNat = t.size then some s else t.get? place := by
  simp only [add, get?, size, Array.getElem?_push]
  rfl

theorem Sound.add {t : StringTable} (h : t.Sound) {s : String} (hs : s ∉ t.toList)
    (hroom : t.size < capacity) : (t.add s).Sound where
  bounded := by
    rw [← length_toList, toList_add, List.length_append, length_toList, List.length_singleton]
    exact hroom
  places := by
    intro r place
    have hnat : (UInt16.ofNat t.size).toNat = t.size := UInt16.toNat_ofNat_of_lt' hroom
    have hnone : t.places[s]? = none := by
      rw [Option.eq_none_iff_forall_ne_some]
      intro p hp
      exact hs ((h.mem_iff s).mpr ⟨p, hp⟩)
    rw [get?_add]
    simp only [StringTable.add, Std.HashMap.getElem?_insert, beq_iff_eq]
    by_cases hr : s = r
    · subst hr
      rw [if_pos rfl, Option.some.injEq]
      constructor
      · intro hp
        rw [if_pos (by rw [← hp]; exact hnat)]
      · intro hp
        split at hp
        · next he => exact UInt16.toNat_inj.mp (hnat.trans he.symm)
        · rw [← h.places, hnone] at hp
          cases hp
    · rw [if_neg hr, h.places]
      split
      · next he =>
        have hout : t.get? place = none := by
          rw [get?_eq, he, ← length_toList]
          exact List.getElem?_eq_none (Nat.le_refl _)
        rw [hout]
        constructor
        · intro hp; cases hp
        · intro hp; exact absurd (Option.some.inj hp) hr
      · rfl

/-- Interning finds a text, or adds it, or has no room left for it. -/
theorem Sound.intern_cases {t : StringTable} (h : t.Sound) (s : String) :
    (∃ place, t.intern s = (some place, t) ∧ t.get? place = some s) ∨
    (s ∉ t.toList ∧ t.size < capacity ∧
      t.intern s = (some (UInt16.ofNat t.size), t.add s)) ∨
    (s ∉ t.toList ∧ t.size = capacity ∧ t.intern s = (none, t)) := by
  cases hp : t.places[s]? with
  | some place =>
    refine .inl ⟨place, ?_, (h.places s place).mp hp⟩
    simp only [intern, hp]
  | none =>
    have hs : s ∉ t.toList := by
      rw [h.mem_iff, hp]
      rintro ⟨place, hplace⟩
      cases hplace
    by_cases hroom : t.strings.size < capacity
    · refine .inr (.inl ⟨hs, hroom, ?_⟩)
      simp only [intern, hp, if_pos hroom, StringTable.add, size]
    · refine .inr (.inr ⟨hs, Nat.le_antisymm h.bounded (Nat.le_of_not_lt hroom), ?_⟩)
      simp only [intern, hp, if_neg hroom]

end PapyrusBackend.StringTable

namespace PapyrusBackend

def extend (known texts : List String) : List String :=
  texts.foldl (fun known s => if s ∈ known then known else known ++ [s]) known

theorem extend_append (known first second : List String) :
    extend known (first ++ second) = extend (extend known first) second := List.foldl_append

theorem extend_of_mem {known : List String} {s : String} (h : s ∈ known) :
    extend known [s] = known := if_pos h

theorem extend_of_not_mem {known : List String} {s : String} (h : s ∉ known) :
    extend known [s] = known ++ [s] := if_neg h

theorem extend_cons (known : List String) (s : String) (texts : List String) :
    extend known (s :: texts) = extend (extend known [s]) texts := rfl

theorem prefix_extend (known texts : List String) : known <+: extend known texts := by
  induction texts generalizing known with
  | nil => exact List.prefix_refl _
  | cons s texts ih =>
    rw [extend_cons]
    refine List.IsPrefix.trans ?_ (ih _)
    by_cases h : s ∈ known
    · exact ⟨[], (List.append_nil _).trans (extend_of_mem h).symm⟩
    · exact ⟨[s], (extend_of_not_mem h).symm⟩

theorem length_le_extend (known texts : List String) :
    known.length ≤ (extend known texts).length := (prefix_extend known texts).length_le

theorem mem_extend {known texts : List String} {t : String} :
    t ∈ extend known texts ↔ t ∈ known ∨ t ∈ texts := by
  induction texts generalizing known with
  | nil => simp [extend]
  | cons s texts ih =>
    rw [extend_cons, ih, List.mem_cons]
    by_cases h : s ∈ known
    · rw [extend_of_mem h]
      constructor
      · rintro (hk | ht)
        · exact .inl hk
        · exact .inr (.inr ht)
      · rintro (hk | rfl | ht)
        · exact .inl hk
        · exact .inl h
        · exact .inr ht
    · rw [extend_of_not_mem h, List.mem_append, List.mem_singleton, or_assoc]

theorem nodup_extend {known : List String} (h : known.Nodup) (texts : List String) :
    (extend known texts).Nodup := by
  induction texts generalizing known with
  | nil => exact h
  | cons s texts ih =>
    rw [extend_cons]
    apply ih
    by_cases hs : s ∈ known
    · rwa [extend_of_mem hs]
    · rw [extend_of_not_mem hs]
      refine List.nodup_append.mpr ⟨h, List.nodup_singleton s, ?_⟩
      rintro a ha b hb rfl
      exact hs (List.mem_singleton.mp hb ▸ ha)

end PapyrusBackend
