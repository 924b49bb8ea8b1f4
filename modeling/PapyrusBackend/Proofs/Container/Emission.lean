import PapyrusBackend.Container.Writing
import PapyrusBackend.Proofs.Container.Interning
import PapyrusBackend.Proofs.Container.Limits
import PapyrusBackend.Proofs.Container.Running

namespace PapyrusBackend.Container

def IsLimit : Fault → Prop
  | .tooMany .. | .wrongArity .. => True
  | _ => False

/-- A writer that succeeds just when `fits` holds and there is room for its texts. -/
structure Emits (w : Write Unit) (fits : Prop) (texts : List String) : Prop where
  ok : ∀ o o', o.table.Sound → w o = .ok () o' →
    fits ∧ o'.table.Sound ∧ o'.table.toList = extend o.table.toList texts
  error : ∀ o o' fault, o.table.Sound → w o = .error fault o' →
    IsLimit fault ∧
      ¬(fits ∧ (extend o.table.toList texts).length ≤ StringTable.capacity)

theorem Emits.congr {w : Write Unit} {p q : Prop} {texts texts' : List String}
    (h : Emits w p texts) (hp : p ↔ q) (ht : texts = texts') : Emits w q texts' := by
  subst ht
  rwa [propext hp] at h

theorem Emits.pure : Emits (pure ()) True [] where
  ok o o' hsound hrun := by
    cases hrun
    exact ⟨trivial, hsound, rfl⟩
  error o o' fault hsound hrun := by cases hrun

theorem Emits.bind {w₁ w₂ : Write Unit} {p q : Prop} {first second : List String}
    (h₁ : Emits w₁ p first) (h₂ : Emits w₂ q second) :
    Emits (w₁ >>= fun _ => w₂) (p ∧ q) (first ++ second) where
  ok o o'' hsound hrun := by
    obtain ⟨_, o', hfirst, hsecond⟩ := bind_ok hrun
    obtain ⟨hp, hsound', htable'⟩ := h₁.ok o o' hsound hfirst
    obtain ⟨hq, hsound'', htable''⟩ := h₂.ok o' o'' hsound' hsecond
    refine ⟨⟨hp, hq⟩, hsound'', ?_⟩
    rw [htable'', htable', extend_append]
  error o o'' fault hsound hrun := by
    obtain hfirst | ⟨_, o', hfirst, hsecond⟩ := bind_error hrun
    · obtain ⟨hlimit, hnot⟩ := h₁.error o o'' fault hsound hfirst
      refine ⟨hlimit, fun ⟨⟨hp, _⟩, hroom⟩ => hnot ⟨hp, ?_⟩⟩
      rw [extend_append] at hroom
      exact Nat.le_trans (length_le_extend _ _) hroom
    · obtain ⟨hp, hsound', htable'⟩ := h₁.ok o o' hsound hfirst
      obtain ⟨hlimit, hnot⟩ := h₂.error o' o'' fault hsound' hsecond
      refine ⟨hlimit, fun ⟨⟨_, hq⟩, hroom⟩ => hnot ⟨hq, ?_⟩⟩
      rwa [htable', ← extend_append]

/-- A part that only some containers have. -/
theorem Emits.ite {w : Write Unit} {p : Prop} {texts : List String} (c : Bool)
    (h : Emits w p texts) :
    Emits (if c then w else Pure.pure ()) (c = true → p) (if c then texts else []) := by
  cases c with
  | false => exact Emits.pure.congr (by simp) rfl
  | true => exact h.congr (by simp) rfl

/-- A writer that only appends bytes. -/
theorem Emits.bytes {w : Write Unit} (make : ByteOrder → List UInt8)
    (hw : ∀ o : Output, w o = .ok () { o with bytes := o.bytes.appendList (make o.order) }) :
    Emits w True [] where
  ok o o' hsound hrun := by
    rw [hw] at hrun
    cases hrun
    exact ⟨trivial, hsound, rfl⟩
  error o o' fault hsound hrun := by
    rw [hw] at hrun
    cases hrun

theorem emits_word (width n : Nat) : Emits (Write.word width n) True [] :=
  Emits.bytes (fun order => toBytes order width n) fun _ => rfl

theorem emits_count (what : String) (n : Nat) : Emits (Write.count what n) (n < 65536) [] := by
  rw [Write.count]
  split
  · next hn => exact (emits_word 2 n).congr (by simp [hn]) rfl
  · next hn =>
    constructor
    · intro o o' hsound hrun
      cases hrun
    · intro o o' fault hsound hrun
      cases hrun
      exact ⟨trivial, fun h => hn h.1⟩

theorem emits_text (s : String) : Emits (Write.text s) True [s] := by
  constructor
  · intro o o' hsound hrun
    obtain ⟨place, hintern, hget⟩ | ⟨hnew, hroom, hintern⟩ | ⟨hnew, hfull, hintern⟩ :=
      hsound.intern_cases s
    · simp only [Write.text, hintern] at hrun
      cases hrun
      rw [StringTable.get?_eq] at hget
      exact ⟨trivial, hsound, (extend_of_mem (List.mem_of_getElem? hget)).symm⟩
    · simp only [Write.text, hintern] at hrun
      cases hrun
      refine ⟨trivial, hsound.add hnew hroom, ?_⟩
      rw [extend_of_not_mem hnew]
      exact StringTable.toList_add o.table s
    · simp only [Write.text, hintern] at hrun
      cases hrun
  · intro o o' fault hsound hrun
    obtain ⟨place, hintern, hget⟩ | ⟨hnew, hroom, hintern⟩ | ⟨hnew, hfull, hintern⟩ :=
      hsound.intern_cases s
    · simp only [Write.text, hintern] at hrun
      cases hrun
    · simp only [Write.text, hintern] at hrun
      cases hrun
    · simp only [Write.text, hintern] at hrun
      cases hrun
      refine ⟨trivial, fun ⟨_, hlength⟩ => ?_⟩
      rw [extend_of_not_mem hnew, List.length_append, StringTable.length_toList, hfull,
        List.length_singleton] at hlength
      omega

theorem emits_inlineText (s : String) : Emits (Write.inlineText s) (Writable s) [] :=
  ((emits_count "string bytes" _).bind
    (Emits.bytes (fun _ => s.toUTF8.data.toList) fun _ => rfl)).congr
    (and_iff_left trivial) rfl

theorem Emits.each {item : α → Write Unit} {p : α → Prop} {texts : α → List String}
    (h : ∀ x, Emits (item x) (p x) (texts x)) (xs : List α) :
    Emits (Write.each item xs) (∀ x ∈ xs, p x) (xs.flatMap texts) := by
  induction xs with
  | nil => exact Emits.pure.congr (by simp) rfl
  | cons x xs ih => exact ((h x).bind ih).congr (by simp) rfl

theorem Emits.counted {item : α → Write Unit} {p : α → Prop} {texts : α → List String}
    (what : String) (h : ∀ x, Emits (item x) (p x) (texts x)) (xs : List α) :
    Emits (Write.counted what item xs) (Countable xs ∧ ∀ x ∈ xs, p x) (xs.flatMap texts) :=
  (emits_count what xs.length).bind (Emits.each h xs)

theorem Emits.framed {content : Write Unit} {p : Prop} {texts : List String}
    (h : Emits content p texts) : Emits (Write.framed content) p texts where
  ok o o' hsound hrun := by
    cases hc : content ⟨o.order, Array.empty, o.table⟩ with
    | error fault inner => simp only [Write.framed, hc] at hrun; cases hrun
    | ok u inner =>
      simp only [Write.framed, hc] at hrun
      cases hrun
      exact h.ok ⟨o.order, Array.empty, o.table⟩ inner hsound hc
  error o o' fault hsound hrun := by
    cases hc : content ⟨o.order, Array.empty, o.table⟩ with
    | ok u inner => simp only [Write.framed, hc] at hrun; cases hrun
    | error fault' inner =>
      simp only [Write.framed, hc] at hrun
      cases hrun
      exact h.error ⟨o.order, Array.empty, o.table⟩ inner fault hsound hc

end PapyrusBackend.Container
