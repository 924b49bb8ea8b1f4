import PapyrusBackend.Proofs.Container.Layout
import PapyrusBackend.Proofs.Sequence

namespace PapyrusBackend

def Method.HasValidArity (m : Method) : Prop :=
  ∀ i ∈ m.body.instructions, i.hasValidArity = true

namespace Container

/-- A writer that fails only where something is too long to be counted. -/
def Counts (w : Write Unit) : Prop :=
  ∀ o o' fault, w o = .error fault o' → ∃ what n, fault = .tooMany what n

theorem Counts.pure : Counts (pure ()) := by
  intro o o' fault h
  cases h

theorem Counts.bind {w₁ w₂ : Write Unit} (h₁ : Counts w₁) (h₂ : Counts w₂) :
    Counts (w₁ >>= fun _ => w₂) := by
  intro o o' fault h
  obtain hfirst | ⟨_, o₁, _, hsecond⟩ := bind_error h
  · exact h₁ o o' fault hfirst
  · exact h₂ o₁ o' fault hsecond

theorem Counts.ite {w : Write Unit} (c : Bool) (h : Counts w) :
    Counts (if c then w else Pure.pure ()) := by
  cases c with
  | false => exact .pure
  | true => exact h

theorem Counts.each {item : α → Write Unit} {xs : List α} (h : ∀ x ∈ xs, Counts (item x)) :
    Counts (Write.each item xs) := by
  induction xs with
  | nil => exact .pure
  | cons x xs ih =>
    obtain ⟨hx, hxs⟩ := List.forall_mem_cons.1 h
    exact hx.bind (ih hxs)

theorem counts_word (width n : Nat) : Counts (Write.word width n) := by
  intro o o' fault h
  cases h

theorem counts_count (what : String) (n : Nat) : Counts (Write.count what n) := by
  rw [Write.count]
  split
  · exact counts_word 2 n
  · intro o o' fault h
    cases h
    exact ⟨what, n, rfl⟩

theorem Counts.counted (what : String) {item : α → Write Unit} {xs : List α}
    (h : ∀ x ∈ xs, Counts (item x)) : Counts (Write.counted what item xs) :=
  (counts_count what xs.length).bind (.each h)

theorem Counts.framed {content : Write Unit} (h : Counts content) :
    Counts (Write.framed content) := by
  intro o o' fault hrun
  cases hc : content ⟨o.order, Array.empty, o.table⟩ with
  | ok u inner =>
    simp only [Write.framed, hc] at hrun
    cases hrun
  | error other inner =>
    simp only [Write.framed, hc] at hrun
    cases hrun
    exact h _ _ _ hc

theorem counts_text (s : String) : Counts (Write.text s) := by
  intro o o' fault h
  rw [Write.text] at h
  split at h
  · exact counts_word 2 _ _ _ _ h
  · cases h
    exact ⟨_, _, rfl⟩

theorem counts_inlineText (s : String) : Counts (Write.inlineText s) :=
  (counts_count _ _).bind fun _ _ _ h => by cases h

theorem counts_value (v : Value) : Counts (Write.value v) := by
  apply (counts_word 1 _).bind
  cases v with
  | none => exact .pure
  | reference s => exact counts_text s
  | string s => exact counts_text s
  | int i => exact counts_word 4 _
  | float x => exact counts_word 4 _
  | bool b => exact counts_word 1 _

theorem counts_instruction {i : Instruction} (h : i.hasValidArity = true) :
    Counts (Write.instruction i) := by
  rw [Write.instruction_eq i h]
  refine (counts_word 1 _).bind ((Counts.each fun v _ => counts_value v).bind (.ite _ ?_))
  exact (counts_value _).bind (.each fun v _ => counts_value v)

theorem counts_typedName (v : TypedName) : Counts (Write.typedName v) :=
  (counts_text v.name).bind (counts_text v.type)

theorem counts_method {m : Method} (h : m.HasValidArity) : Counts (Write.method m) :=
  (counts_text _).bind ((counts_text _).bind ((counts_word 4 _).bind ((counts_word 1 _).bind
    ((Counts.counted _ fun v _ => counts_typedName v).bind
      ((Counts.counted _ fun v _ => counts_typedName v).bind
        (.counted _ fun i hi => counts_instruction (h i hi)))))))

theorem counts_field (generation : Generation) (f : Field) :
    Counts (Write.field generation f) :=
  (counts_text _).bind ((counts_text _).bind ((counts_word 4 _).bind ((counts_value _).bind
    (.ite _ (counts_word 1 _)))))

theorem counts_struct (generation : Generation) (s : Struct) :
    Counts (Write.struct generation s) :=
  (counts_text _).bind (.counted _ fun f _ => (counts_field generation f).bind (counts_text _))

theorem counts_optionalMethod {m : Option Method} (h : ∀ m' ∈ m, m'.HasValidArity) :
    Counts (Write.optionalMethod m) := by
  cases m with
  | none => exact .pure
  | some m => exact counts_method (h m rfl)

theorem counts_property {p : Property} (h : ∀ m ∈ p.methods, m.HasValidArity) :
    Counts (Write.property p) := by
  rw [Write.property_eq]
  refine (counts_text _).bind ((counts_text _).bind ((counts_text _).bind
    ((counts_word 4 _).bind ((counts_word 1 _).bind ?_))))
  rw [Property.methods, List.forall_mem_append] at h
  obtain ⟨hgetter, hsetter⟩ := h
  cases ha : p.accessors with
  | auto backing => exact counts_text backing
  | explicit getter setter =>
    simp only [Property.getter?, Property.setter?, ha, Option.mem_toList] at hgetter hsetter
    exact (counts_optionalMethod hgetter).bind (counts_optionalMethod hsetter)

theorem counts_state {s : State} (h : ∀ m ∈ s.methods, m.HasValidArity) :
    Counts (Write.state s) :=
  (counts_text _).bind (.counted _ fun m hm => (counts_text _).bind (counts_method (h m hm)))

theorem counts_objectType {t : ObjectType} (generation : Generation)
    (h : ∀ m ∈ t.methods ++ t.properties.flatMap Property.methods, m.HasValidArity) :
    Counts (Write.objectType generation t) := by
  rw [List.forall_mem_append] at h
  obtain ⟨hmethods, hproperties⟩ := h
  rw [Write.objectType, Write.typeContent_eq]
  refine (counts_text _).bind (.framed ?_)
  refine (counts_text _).bind ((counts_text _).bind ((Counts.ite _ (counts_word 1 _)).bind
    ((counts_word 4 _).bind ((counts_text _).bind ((Counts.ite _ ?_).bind (Counts.bind ?_
      (Counts.bind ?_ ?_)))))))
  · exact .counted _ fun s _ => counts_struct generation s
  · exact .counted _ fun f _ => counts_field generation f
  · exact .counted _ fun p hp => counts_property fun m hm =>
      hproperties m (List.mem_flatMap.2 ⟨p, hp, hm⟩)
  · exact .counted _ fun s hs => counts_state fun m hm =>
      hmethods m (List.mem_flatMap.2 ⟨s, hs, hm⟩)

theorem counts_debugInfo (generation : Generation) (d : DebugInfo) :
    Counts (Write.debugInfo generation d) := by
  rw [Write.debugInfo_eq]
  refine (counts_word 8 _).bind (Counts.bind ?_ (Counts.bind (.ite _ ?_) (.ite _ ?_)))
  · exact .counted _ fun m _ => (counts_text _).bind ((counts_text _).bind ((counts_text _).bind
      ((counts_word 1 _).bind (.counted _ fun n _ => counts_word 2 _))))
  · exact .counted _ fun g _ => (counts_text _).bind ((counts_text _).bind ((counts_text _).bind
      ((counts_word 4 _).bind (.counted _ fun s _ => counts_text s))))
  · exact .counted _ fun s _ => (counts_text _).bind ((counts_text _).bind
      (.counted _ fun s _ => counts_text s))

theorem counts_content {a : Assembly} (h : ∀ m ∈ a.methods, m.HasValidArity) :
    Counts (Write.content a.generation a) := by
  rw [Write.content_eq]
  refine Counts.bind ?_ (Counts.bind ?_ ?_)
  · cases a.debug with
    | none => exact counts_word 1 _
    | some d => exact (counts_word 1 _).bind (counts_debugInfo a.generation d)
  · exact .counted _ fun f _ => (counts_text _).bind (counts_word 1 _)
  · exact .counted _ fun t ht => counts_objectType a.generation fun m hm =>
      h m (List.mem_flatMap.2 ⟨t, ht, hm⟩)

theorem counts_header (h : Header) : Counts (Write.header h) :=
  (counts_word 4 _).bind ((counts_word 1 _).bind ((counts_word 1 _).bind ((counts_word 2 _).bind
    ((counts_word 8 _).bind ((counts_inlineText _).bind ((counts_inlineText _).bind
      (counts_inlineText _)))))))

/-- An assembly whose instructions have the arguments that they ask for is refused only for its
size. -/
theorem encode_error {a : Assembly} (h : ∀ m ∈ a.methods, m.HasValidArity) {fault : Fault}
    (herror : encode a = .error fault) : ∃ what n, fault = .tooMany what n := by
  rw [encode, encodeFor] at herror
  split at herror
  · next other _ hcontent =>
    cases herror
    exact counts_content h _ _ _ hcontent
  · next body hbody =>
    dsimp only at herror
    split at herror
    · next other _ hfront =>
      cases herror
      refine Counts.bind (counts_header a.header) ?_ _ _ _ hfront
      exact .counted _ fun s _ => counts_inlineText s
    · cases herror

end Container

end PapyrusBackend
