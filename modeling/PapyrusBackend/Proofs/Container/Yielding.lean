import PapyrusBackend.Proofs.Container.Limits
import PapyrusBackend.Proofs.Container.Running
import PapyrusBackend.Proofs.Container.Words

namespace PapyrusBackend.Container

def Yields (r : Read α) (known : List String) (P : α → Prop) : Prop :=
  ∀ (s s' : Reader) (a : α), s.table.toList = known → r s = .ok a s' →
    s'.table.toList = known ∧ P a

variable {known : List String}

theorem Yields.pure {P : α → Prop} {a : α} (h : P a) : Yields (pure a) known P := by
  intro s s' b hs hrun
  cases hrun
  exact ⟨hs, h⟩

theorem Yields.bind {r : Read α} {k : α → Read β} {P : α → Prop} {Q : β → Prop}
    (hr : Yields r known P) (hk : ∀ a, P a → Yields (k a) known Q) :
    Yields (r >>= k) known Q := by
  intro s s' b hs hrun
  obtain ⟨a, t, hfirst, hsecond⟩ := bind_ok hrun
  obtain ⟨ht, ha⟩ := hr s t a hs hfirst
  exact hk a ha t s' b ht hsecond

theorem Yields.throw (fault : Fault) (P : α → Prop) : Yields (throw fault) known P := by
  intro s s' a hs hrun
  cases hrun

theorem Yields.mono {r : Read α} {P Q : α → Prop} (h : Yields r known P)
    (himp : ∀ a, P a → Q a) : Yields r known Q := by
  intro s s' a hs hrun
  obtain ⟨hs', ha⟩ := h s s' a hs hrun
  exact ⟨hs', himp a ha⟩

/-- A part that only some containers have. -/
theorem Yields.ite {r : Read α} {b : α} {c : Bool} {P : α → Prop}
    (h : c = true → Yields r known P) :
    Yields (if c then r else Pure.pure b) known
      (fun a => (c = true → P a) ∧ (c = false → a = b)) := by
  cases c with
  | false => exact Yields.pure ⟨nofun, fun _ => rfl⟩
  | true => exact (h rfl).mono fun a ha => ⟨fun _ => ha, nofun⟩

theorem yields_bytes (n : Nat) : Yields (Read.bytes n) known (fun taken => taken.length = n) := by
  intro s s' taken hs hrun
  obtain ⟨hlength, rfl, rfl⟩ := bytes_ok hrun
  exact ⟨hs, List.length_take_of_le hlength⟩

theorem yields_word (width : Nat) : Yields (Read.word width) known (fun _ => True) := by
  intro s s' n hs hrun
  obtain ⟨_, _, rfl⟩ := word_ok hrun
  exact ⟨hs, trivial⟩

theorem yields_u8 : Yields Read.u8 known (fun _ => True) :=
  (yields_word 1).bind fun _ _ => Yields.pure trivial

theorem yields_u16 : Yields Read.u16 known (fun _ => True) :=
  (yields_word 2).bind fun _ _ => Yields.pure trivial

theorem yields_u32 : Yields Read.u32 known (fun _ => True) :=
  (yields_word 4).bind fun _ _ => Yields.pure trivial

theorem yields_u64 : Yields Read.u64 known (fun _ => True) :=
  (yields_word 8).bind fun _ _ => Yields.pure trivial

theorem yields_i32 : Yields Read.i32 known (fun _ => True) :=
  yields_u32.bind fun _ _ => Yields.pure trivial

theorem yields_single : Yields Read.single known (fun _ => True) :=
  yields_u32.bind fun _ _ => Yields.pure trivial

theorem yields_position : Yields Read.position known (fun _ => True) := by
  intro s s' n hs hrun
  cases hrun
  exact ⟨hs, trivial⟩

/-- A text has as many bytes as it was read from. -/
theorem length_of_fromUTF8? {bytes : List UInt8} {s : String}
    (h : String.fromUTF8? ⟨bytes.toArray⟩ = some s) :
    s.toUTF8.data.toList.length = bytes.length := by
  by_cases hvalid : ByteArray.IsValidUTF8 ⟨bytes.toArray⟩
  · rw [String.fromUTF8?, dif_pos hvalid] at h
    cases h
    rfl
  · rw [String.fromUTF8?, dif_neg hvalid] at h
    cases h

theorem yields_inlineText : Yields Read.inlineText known Writable := by
  refine yields_position.bind fun start _ => yields_u16.bind fun length _ => ?_
  refine (yields_bytes length.toNat).bind fun taken htaken => ?_
  split
  · next s hs =>
    apply Yields.pure
    rw [Writable, length_of_fromUTF8? hs, htaken]
    exact length.toNat_lt
  · exact Yields.throw _ _

/-- A place that is found or put right is one of the table. -/
theorem yields_resolve (hknown : Countable known) (place : UInt16) :
    Yields (Read.resolve place) known (fun found => found.toNat < known.length) := by
  intro s s' found hs hrun
  have hsize : s.table.size = known.length := by rw [← hs, StringTable.length_toList]
  simp only [Read.resolve, hsize] at hrun
  split at hrun
  · next hlt =>
    cases hrun
    exact ⟨hs, hlt⟩
  · split at hrun
    · cases hrun
    · next hlenient =>
      cases hrun
      have hpos : known.length ≠ 0 := fun h => hlenient (.inr h)
      have hlt : known.length - 1 < 65536 := Nat.lt_of_le_of_lt (Nat.sub_le _ _) hknown
      have hfound : (UInt16.ofNat (known.length - 1)).toNat = known.length - 1 :=
        UInt16.toNat_ofNat_of_lt' hlt
      exact ⟨hs, by omega⟩

theorem yields_text (hknown : Countable known) : Yields Read.indexedText known (· ∈ known) := by
  refine yields_u16.bind fun n _ => (yields_resolve hknown n).bind fun place hplace => ?_
  intro s s' text hs hrun
  cases hrun
  refine ⟨hs, ?_⟩
  rw [StringTable.get?_eq, hs, List.getElem?_eq_getElem hplace]
  exact List.getElem_mem hplace

theorem Yields.repeatOnto {r : Read α} {P : α → Prop} (h : Yields r known P) (n : Nat)
    {done : List α} (hdone : ∀ a ∈ done, P a) :
    Yields (Read.repeatOnto r n done) known
      (fun xs => xs.length = n + done.length ∧ ∀ a ∈ xs, P a) := by
  induction n generalizing done with
  | zero =>
    apply Yields.pure
    refine ⟨?_, fun a ha => hdone a (List.mem_reverse.mp ha)⟩
    rw [List.length_reverse, Nat.zero_add]
  | succ n ih =>
    refine h.bind fun a ha => ?_
    refine (ih (List.forall_mem_cons.mpr ⟨ha, hdone⟩)).mono ?_
    rintro xs ⟨hlength, hxs⟩
    rw [List.length_cons] at hlength
    exact ⟨by omega, hxs⟩

theorem Yields.times {r : Read α} {P : α → Prop} (h : Yields r known P) (n : Nat) :
    Yields (Read.times n r) known (fun xs => xs.length = n ∧ ∀ a ∈ xs, P a) :=
  h.repeatOnto n (fun _ ha => absurd ha List.not_mem_nil)

theorem Yields.counted {r : Read α} {P : α → Prop} (h : Yields r known P) :
    Yields (Read.counted r) known (fun xs => Countable xs ∧ ∀ a ∈ xs, P a) := by
  refine yields_u16.bind fun n _ => (h.times n.toNat).mono ?_
  rintro xs ⟨hlength, hxs⟩
  refine ⟨?_, hxs⟩
  rw [Countable, hlength]
  exact n.toNat_lt

end PapyrusBackend.Container
