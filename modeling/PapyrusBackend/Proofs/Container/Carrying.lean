import Mathlib.Data.List.Infix
import PapyrusBackend.Container.Reading
import PapyrusBackend.Container.Writing
import PapyrusBackend.Proofs.Container.Interning
import PapyrusBackend.Proofs.Container.Words

namespace PapyrusBackend.Container

/-- The reader takes `bytes` for `a` if it knows these texts, whatever follows. -/
def Takes (r : Read α) (order : ByteOrder) (known : List String) (bytes : List UInt8) (a : α) :
    Prop :=
  ∀ (s : Reader) (rest : List UInt8), s.order = order → s.table.toList = known →
    s.rest = bytes ++ rest →
    r s = .ok a { s with rest, position := s.position + bytes.length }

def Carries (w : Write Unit) (r : Read α) (a : α) : Prop :=
  ∀ o o' : Output, o.table.Sound → w o = .ok () o' →
    o'.order = o.order ∧ o'.table.Sound ∧ o.table.toList <+: o'.table.toList ∧
      ∃ bytes, o'.bytes.toList = o.bytes.toList ++ bytes ∧
        ∀ known, o'.table.toList <+: known → Takes r o.order known bytes a

theorem Takes.pure (order : ByteOrder) (known : List String) (a : α) :
    Takes (pure a) order known [] a := by
  intro s rest _ _ hrest
  rw [List.nil_append] at hrest
  subst hrest
  rfl

theorem Takes.bind {r : Read α} {k : α → Read β} {order : ByteOrder} {known : List String}
    {first second : List UInt8} {a : α} {b : β} (hr : Takes r order known first a)
    (hk : Takes (k a) order known second b) :
    Takes (r >>= k) order known (first ++ second) b := by
  intro s rest horder hknown hrest
  rw [List.append_assoc] at hrest
  have h₁ := hr s (second ++ rest) horder hknown hrest
  have h₂ := hk { s with rest := second ++ rest, position := s.position + first.length } rest
    horder hknown rfl
  show (EStateM.bind r k s) = _
  simp only [EStateM.bind, h₁, h₂, List.length_append, Nat.add_assoc]

theorem Takes.map {r : Read α} {order : ByteOrder} {known : List String} {bytes : List UInt8} {a : α}
    (h : Takes r order known bytes a) (f : α → β) :
    Takes (r >>= fun a => Pure.pure (f a)) order known bytes (f a) := by
  have hb := h.bind (k := fun a => Pure.pure (f a)) (Takes.pure order known (f a))
  rwa [List.append_nil] at hb

theorem Carries.pure (a : α) : Carries (pure ()) (pure a : Read α) a := by
  intro o o' hsound hrun
  cases hrun
  exact ⟨rfl, hsound, List.prefix_refl _, [], by simp, fun known _ => Takes.pure _ known a⟩

theorem Carries.bind {v w : Write Unit} {r : Read α} {k : α → Read β} {a : α} {b : β}
    (h₁ : Carries v r a) (h₂ : Carries w (k a) b) :
    Carries (v >>= fun _ => w) (r >>= k) b := by
  intro o o'' hsound hrun
  replace hrun : EStateM.bind v (fun _ => w) o = .ok () o'' := hrun
  cases hv : v o with
  | error fault o' => simp [EStateM.bind, hv] at hrun
  | ok u o' =>
    simp only [EStateM.bind, hv] at hrun
    obtain ⟨horder₁, hsound₁, hprefix₁, bytes₁, hbytes₁, htakes₁⟩ := h₁ o o' hsound hv
    obtain ⟨horder₂, hsound₂, hprefix₂, bytes₂, hbytes₂, htakes₂⟩ := h₂ o' o'' hsound₁ hrun
    refine ⟨horder₂.trans horder₁, hsound₂, hprefix₁.trans hprefix₂, bytes₁ ++ bytes₂, ?_, ?_⟩
    · rw [hbytes₂, hbytes₁, List.append_assoc]
    · intro known hknown
      have h := htakes₂ known hknown
      rw [horder₁] at h
      exact (htakes₁ known (hprefix₂.trans hknown)).bind h

/-- The last part of a section is followed by what makes the result of all parts. -/
theorem Carries.map {w : Write Unit} {r : Read α} {a : α} (h : Carries w r a) (f : α → β) :
    Carries w (r >>= fun a => Pure.pure (f a)) (f a) := by
  have hb := h.bind (w := Pure.pure ()) (k := fun a => Pure.pure (f a)) (Carries.pure (f a))
  have hw : (w >>= fun _ => Pure.pure ()) = w := bind_pure w
  rwa [hw] at hb

/-- A writer that always fails carries anything. -/
theorem Carries.of_fails {w : Write Unit} (h : ∀ o o', w o ≠ .ok () o') (r : Read α) (a : α) :
    Carries w r a :=
  fun o o' _ hrun => absurd hrun (h o o')

/-- A part that only some containers have. -/
theorem Carries.ite {w : Write Unit} {r : Read α} {a b : α} {c : Bool}
    (h : c = true → Carries w r a) :
    Carries (if c then w else Pure.pure ()) (if c then r else Pure.pure b) (if c then a else b) := by
  cases c with
  | false => exact Carries.pure b
  | true => exact h rfl

theorem bytes_takes (order : ByteOrder) (known : List String) (bytes : List UInt8) :
    Takes (Read.bytes bytes.length) order known bytes bytes := by
  intro s rest _ _ hrest
  simp only [Read.bytes, hrest, List.take_left, List.drop_left, if_true]

theorem word_takes (order : ByteOrder) (known : List String) (width n : Nat) :
    Takes (Read.word width) order known (toBytes order width n) (n % 256 ^ width) := by
  intro s rest horder hknown hrest
  have h := bytes_takes order known (toBytes order width n) s rest horder hknown hrest
  rw [length_toBytes] at h ⊢
  have hword : Read.word width s =
      EStateM.bind (Read.bytes width) (fun taken => pure (ofBytes s.order taken)) s := rfl
  rw [hword]
  simp only [EStateM.bind, h, horder, ofBytes_toBytes]
  rfl

theorem Carries.bytes {w : Write Unit} {r : Read α} {a : α} (make : ByteOrder → List UInt8)
    (hw : ∀ o : Output, w o = .ok () { o with bytes := o.bytes.appendList (make o.order) })
    (hr : ∀ order known, Takes r order known (make order) a) : Carries w r a := by
  intro o o' hsound hrun
  rw [hw] at hrun
  cases hrun
  refine ⟨rfl, hsound, List.prefix_refl _, make o.order, ?_, fun known _ => hr _ known⟩
  simp only [Array.appendList_eq_append, Array.toList_appendList]

theorem carries_word (width n : Nat) :
    Carries (Write.word width n) (Read.word width) (n % 256 ^ width) :=
  Carries.bytes (fun order => toBytes order width n) (fun _ => rfl)
    fun order known => word_takes order known width n

theorem carries_u8 (n : UInt8) : Carries (Write.u8 n) Read.u8 n := by
  have hn : n.toNat < 256 ^ 1 := n.toNat_lt
  have h := (carries_word 1 n.toNat).map UInt8.ofNat
  rwa [Nat.mod_eq_of_lt hn, UInt8.ofNat_toNat] at h

theorem carries_u16 (n : UInt16) : Carries (Write.u16 n) Read.u16 n := by
  have hn : n.toNat < 256 ^ 2 := n.toNat_lt
  have h := (carries_word 2 n.toNat).map UInt16.ofNat
  rwa [Nat.mod_eq_of_lt hn, UInt16.ofNat_toNat] at h

theorem carries_u32 (n : UInt32) : Carries (Write.u32 n) Read.u32 n := by
  have hn : n.toNat < 256 ^ 4 := n.toNat_lt
  have h := (carries_word 4 n.toNat).map UInt32.ofNat
  rwa [Nat.mod_eq_of_lt hn, UInt32.ofNat_toNat] at h

theorem carries_u64 (n : UInt64) : Carries (Write.u64 n) Read.u64 n := by
  have hn : n.toNat < 256 ^ 8 := n.toNat_lt
  have h := (carries_word 8 n.toNat).map UInt64.ofNat
  rwa [Nat.mod_eq_of_lt hn, UInt64.ofNat_toNat] at h

theorem carries_i32 (n : Int32) : Carries (Write.i32 n) Read.i32 n :=
  (carries_u32 n.toUInt32).map UInt32.toInt32

theorem carries_single (x : Single) : Carries (Write.single x) Read.single x :=
  (carries_u32 x.bits).map Single.mk

/-- The length of a list, when it can be written at all. -/
theorem carries_count {n : Nat} (hn : n < 65536) (what : String) :
    Carries (Write.count what n) Read.u16 (UInt16.ofNat n) := by
  have h := (carries_word 2 n).map UInt16.ofNat
  rw [Nat.mod_eq_of_lt (show n < 256 ^ 2 from hn)] at h
  rwa [Write.count, if_pos hn]

theorem count_fails {n : Nat} (hn : ¬n < 65536) (what : String) (w : Write Unit) (o o' : Output) :
    (Write.count what n >>= fun _ => w) o ≠ .ok () o' := by
  rw [Write.count, if_neg hn]
  intro hrun
  cases hrun

/-- A reader may ask for its position, which only shows in faults. -/
theorem Carries.position {w : Write Unit} {k : Nat → Read α} {a : α}
    (h : ∀ start, Carries w (k start) a) : Carries w (Read.position >>= k) a := by
  intro o o' hsound hrun
  obtain ⟨horder, hsound', hprefix, bytes, hbytes, _⟩ := h 0 o o' hsound hrun
  refine ⟨horder, hsound', hprefix, bytes, hbytes, fun known hknown s rest hs ht hrest => ?_⟩
  obtain ⟨_, _, _, bytes', hbytes', htakes⟩ := h s.position o o' hsound hrun
  have heq : bytes' = bytes := List.append_cancel_left (hbytes'.symm.trans hbytes)
  subst heq
  exact htakes known hknown s rest hs ht hrest

theorem carries_bytes (bytes : List UInt8) :
    Carries (Write.bytes bytes) (Read.bytes bytes.length) bytes :=
  Carries.bytes (fun _ => bytes) (fun _ => rfl) fun order known =>
    bytes_takes order known bytes

theorem fromUTF8?_toUTF8 (s : String) :
    String.fromUTF8? ⟨s.toUTF8.data.toList.toArray⟩ = some s := by
  have hvalid : ByteArray.IsValidUTF8 ⟨s.toUTF8.data⟩ := s.isValidUTF8
  simp only [Array.toArray_toList, String.fromUTF8?, dif_pos hvalid]
  rfl

theorem carries_inlineText (s : String) : Carries (Write.inlineText s) Read.inlineText s := by
  by_cases hlength : s.toUTF8.data.toList.length < 65536
  · have hn : (UInt16.ofNat s.toUTF8.data.toList.length).toNat = s.toUTF8.data.toList.length :=
      UInt16.toNat_ofNat_of_lt' hlength
    refine Carries.position fun start => (carries_count hlength "string bytes").bind ?_
    have h := carries_bytes s.toUTF8.data.toList
    rw [← hn] at h
    refine h.bind (w := Pure.pure ()) ?_
    rw [fromUTF8?_toUTF8]
    exact Carries.pure s
  · exact Carries.of_fails (count_fails hlength "string bytes" _) _ _

theorem resolve_takes (order : ByteOrder) (known : List String) {place : UInt16}
    (hplace : place.toNat < known.length) : Takes (Read.resolve place) order known [] place := by
  intro s rest _ hknown hrest
  have hsize : place.toNat < s.table.size := by rwa [← StringTable.length_toList, hknown]
  rw [List.nil_append] at hrest
  subst hrest
  simp only [Read.resolve, if_pos hsize]
  rfl

theorem indexedText_takes (order : ByteOrder) (known : List String) {place : UInt16} {text : String}
    (hplace : known[place.toNat]? = some text) :
    Takes Read.indexedText order known (toBytes order 2 place.toNat) text := by
  obtain ⟨hlt, _⟩ := List.getElem?_eq_some_iff.mp hplace
  have hlow : place.toNat < 256 ^ 2 := place.toNat_lt
  have hn : UInt16.ofNat (place.toNat % 256 ^ 2) = place := by
    rw [Nat.mod_eq_of_lt hlow, UInt16.ofNat_toNat]
  have hword := (word_takes order known 2 place.toNat).map UInt16.ofNat
  let look (place : UInt16) : Read String := do return ((← get).table.get? place).getD ""
  have hget : Takes (look place) order known [] text := by
    intro s rest _ hknown hrest
    rw [List.nil_append] at hrest
    subst hrest
    show EStateM.Result.ok ((s.table.get? place).getD "") s = _
    rw [StringTable.get?_eq, hknown, hplace]
    rfl
  rw [hn] at hword
  have hlook := (resolve_takes order known hlt).bind (k := look) hget
  have h := hword.bind (k := fun n => Read.resolve n >>= look) hlook
  rwa [List.append_nil, List.append_nil] at h

theorem carries_text (s : String) : Carries (Write.text s) Read.indexedText s := by
  intro o o' hsound hrun
  -- In every case that succeeds, the table that is left has `s` at the place that is written.
  have hplace : ∀ (place : UInt16) (t : StringTable), t.Sound → o.table.toList <+: t.toList →
      t.get? place = some s → o.table.intern s = (some place, t) →
      o'.order = o.order ∧ o'.table.Sound ∧ o.table.toList <+: o'.table.toList ∧
        ∃ bytes, o'.bytes.toList = o.bytes.toList ++ bytes ∧
          ∀ known, o'.table.toList <+: known → Takes Read.indexedText o.order known bytes s := by
    intro place t ht hprefix hget hintern
    simp only [Write.text, hintern] at hrun
    cases hrun
    refine ⟨rfl, ht, hprefix, toBytes o.order 2 place.toNat, ?_, ?_⟩
    · simp only [Array.appendList_eq_append, Array.toList_appendList]
    · intro known hknown
      rw [StringTable.get?_eq] at hget
      obtain ⟨more, rfl⟩ := hknown
      obtain ⟨hlt, _⟩ := List.getElem?_eq_some_iff.mp hget
      exact indexedText_takes o.order _ ((List.getElem?_append_left hlt).trans hget)
  obtain ⟨place, hintern, hget⟩ | ⟨hnew, hroom, hintern⟩ | ⟨hnew, hfull, hintern⟩ :=
    hsound.intern_cases s
  · exact hplace place o.table hsound (List.prefix_refl _) hget hintern
  · have hget : (o.table.add s).get? (UInt16.ofNat o.table.size) = some s := by
      rw [StringTable.get?_add, if_pos (UInt16.toNat_ofNat_of_lt' hroom)]
    have hprefix : o.table.toList <+: (o.table.add s).toList := by
      rw [StringTable.toList_add]
      exact List.prefix_append _ _
    exact hplace _ _ (hsound.add hnew hroom) hprefix hget hintern
  · simp only [Write.text, hintern] at hrun
    cases hrun

theorem Carries.repeatOnto {item : α → Write Unit} {r : Read β} {f : α → β} {xs : List α}
    (h : ∀ x ∈ xs, Carries (item x) r (f x)) (done : List β) :
    Carries (Write.each item xs) (Read.repeatOnto r xs.length done)
      (done.reverse ++ xs.map f) := by
  induction xs generalizing done with
  | nil =>
    rw [List.map_nil, List.append_nil]
    exact Carries.pure done.reverse
  | cons x xs ih =>
    have hrest := ih (fun y hy => h y (List.mem_cons_of_mem x hy)) (f x :: done)
    have hb := (h x List.mem_cons_self).bind (k := fun a => Read.repeatOnto r xs.length (a :: done))
      hrest
    rwa [List.reverse_cons, List.append_assoc, List.singleton_append] at hb

theorem Carries.times {item : α → Write Unit} {r : Read β} {f : α → β} {xs : List α}
    (h : ∀ x ∈ xs, Carries (item x) r (f x)) :
    Carries (Write.each item xs) (Read.times xs.length r) (xs.map f) :=
  Carries.repeatOnto h []

theorem Carries.counted {item : α → Write Unit} {r : Read β} {f : α → β} {xs : List α}
    (what : String) (h : ∀ x ∈ xs, Carries (item x) r (f x)) :
    Carries (Write.counted what item xs) (Read.counted r) (xs.map f) := by
  by_cases hlength : xs.length < 65536
  · have hn : (UInt16.ofNat xs.length).toNat = xs.length := UInt16.toNat_ofNat_of_lt' hlength
    refine (carries_count hlength what).bind ?_
    rw [hn]
    exact Carries.times h
  · exact Carries.of_fails (count_fails hlength what _) _ _

/-- A list whose items are carried as they are. -/
theorem Carries.countedSame {item : α → Write Unit} {r : Read α} (what : String)
    (h : ∀ x, Carries (item x) r x) (xs : List α) :
    Carries (Write.counted what item xs) (Read.counted r) xs := by
  have hc := Carries.counted (f := id) what fun x (_ : x ∈ xs) => h x
  rwa [List.map_id] at hc

/-- The size in front of a section is read and not used. -/
theorem Carries.framed {content : Write Unit} {r : Read α} {a : α} (h : Carries content r a) :
    Carries (Write.framed content) (do let _ ← Read.u32; r) a := by
  intro o o' hsound hrun
  cases hc : content ⟨o.order, Array.empty, o.table⟩ with
  | error fault inner => simp only [Write.framed, hc] at hrun; cases hrun
  | ok u inner =>
    simp only [Write.framed, hc] at hrun
    obtain ⟨_, hsound', hprefix, bytes, hbytes, htakes⟩ :=
      h ⟨o.order, Array.empty, o.table⟩ inner hsound hc
    cases hrun
    refine ⟨rfl, hsound', hprefix, toBytes o.order 4 (inner.bytes.size + 4) ++ bytes, ?_, ?_⟩
    · have hinner : inner.bytes.toList = bytes := hbytes
      simp only [Array.appendList_eq_append, Array.toList_append, Array.toList_appendList, hinner,
        List.append_assoc]
    · intro known hknown
      have hsize := (word_takes o.order known 4 (inner.bytes.size + 4)).map UInt32.ofNat
      exact hsize.bind (htakes known hknown)

end PapyrusBackend.Container
