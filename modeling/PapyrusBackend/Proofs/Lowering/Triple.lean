import PapyrusBackend.Proofs.Lowering.Destinations

namespace PapyrusBackend.Lowering

open Source

def Ends (floor : Simulation → Prop) (Q : α → Simulation → Prop) :
    EStateM.Result Fault Simulation α → Prop
  | .ok a t => Q a t
  | .error fault t => fault.isLocal = true → floor t

def Triple (floor I : Simulation → Prop) (x : Lower α) (Q : α → Simulation → Prop) : Prop :=
  ∀ s, I s → Ends floor Q (x s)

variable {floor I : Simulation → Prop} {x : Lower α} {Q R : α → Simulation → Prop}

theorem Ends.imp {result : EStateM.Result Fault Simulation α} (h : Ends floor Q result)
    (hQ : ∀ a t, result = .ok a t → Q a t → R a t) : Ends floor R result := by
  cases result with
  | error fault t => exact h
  | ok a t => exact hQ a t rfl h

theorem Triple.pure {a : α} (h : ∀ s, I s → Q a s) : Triple floor I (pure a) Q := h

theorem Triple.throw {fault : Fault} (h : fault.isLocal = false) : Triple floor I (throw fault) Q :=
  fun _ _ hlocal => absurd (h.symm.trans hlocal) Bool.false_ne_true

theorem Triple.bind {k : α → Lower β} {R : β → Simulation → Prop} (hx : Triple floor I x Q)
    (hk : ∀ a, Triple floor (Q a) (k a) R) : Triple floor I (x >>= k) R := by
  intro s hs
  have hends := hx s hs
  show Ends floor R (EStateM.bind x k s)
  rw [EStateM.bind]
  cases hrun : x s with
  | error fault t =>
    rw [hrun] at hends
    exact hends
  | ok a t =>
    rw [hrun] at hends
    exact hk a t hends

/-- What is known of the result alone is told apart. -/
theorem Triple.bind_and {k : α → Lower β} {P : α → Prop} {R : β → Simulation → Prop}
    (hx : Triple floor I x fun a t => P a ∧ Q a t)
    (hk : ∀ a, P a → Triple floor (Q a) (k a) R) : Triple floor I (x >>= k) R :=
  hx.bind fun a t ht => hk a ht.1 t ht.2

theorem Triple.mono {J : Simulation → Prop} (h : Triple floor I x Q) (hI : ∀ s, J s → I s)
    (hQ : ∀ a t, Q a t → R a t) : Triple floor J x R :=
  fun s hs => (h s (hI s hs)).imp fun a t _ => hQ a t

/-- What a run shows besides what a triple says of it. -/
theorem Triple.and_ok (h : Triple floor I x Q) (hok : ∀ s a t, I s → x s = .ok a t → R a t) :
    Triple floor I x fun a t => R a t ∧ Q a t :=
  fun s hs => (h s hs).imp fun a t hrun hQ => ⟨hok s a t hs hrun, hQ⟩

theorem Triple.ok (h : Triple floor I x Q) {s t : Simulation} {a : α} (hs : I s)
    (hx : x s = .ok a t) : Q a t := by
  have hends := h s hs
  rwa [hx] at hends

theorem Triple.get {k : Simulation → Lower α} (h : ∀ s, I s → Triple floor I (k s) Q) :
    Triple floor I (get >>= k) Q := fun s hs => h s hs s hs

theorem Triple.get_eq {k : Simulation → Lower α} (h : ∀ s, I s → Triple floor (· = s) (k s) Q) :
    Triple floor I (MonadState.get >>= k) Q := fun s hs => h s hs s rfl

theorem Triple.set {t : Simulation} {Q : PUnit → Simulation → Prop} (h : Q () t) :
    Triple floor I (set t) Q := fun _ _ => h

theorem Triple.modify {g : Simulation → Simulation} {Q : PUnit → Simulation → Prop}
    (h : ∀ s, I s → Q () (g s)) : Triple floor I (modify g) Q := h

/-- Holds of simulations that differ in nothing but their variables, joins and warnings alike. -/
def Blind (I : Simulation → Prop) : Prop :=
  ∀ s t : Simulation, t.stack = s.stack → t.inverted = s.inverted → t.skipNext = s.skipNext →
    t.skipTo = s.skipTo → I s → I t

theorem Blind.temporary (hI : Blind I) {type : String} {v : Variable} {s t : Simulation}
    (hv : Lower.temporary type s = .ok v t) (hs : I s) : I t := by
  cases hv
  exact hI s _ rfl rfl rfl rfl hs

theorem Blind.declareNone (hI : Blind I) {v : Variable} {s t : Simulation}
    (hv : Lower.declareNone s = .ok v t) (hs : I s) : I t := by
  cases hv
  dsimp only
  split
  · exact hs
  · exact hI s _ rfl rfl rfl rfl hs

namespace Lower

variable {f : Frame}

theorem triple_stages {item : Item} {Q : Staged → Simulation → Prop}
    (h : ∀ s staged t, I s → Stages s item staged t → Q staged t) :
    Triple floor I (stage item) Q := by
  intro s hs
  obtain ⟨staged, t, hrun, hstages⟩ := stage_run item s
  rw [hrun]
  exact h s staged t hs hstages

theorem triple_directs {type : String} {Q : Destination → Simulation → Prop}
    (h : ∀ s d t, I s → Directs f type s d t → Q d t) :
    Triple floor I (destination f type) Q := by
  intro s hs
  obtain ⟨d, t, hrun, hdirects⟩ | ⟨reason, hrun⟩ := directed_destination f type s
  · rw [hrun]
    exact h s d t hs hdirects
  · rw [hrun]
    exact fun hlocal => absurd hlocal Bool.false_ne_true

theorem triple_need {operand : Option α} {reason : String} :
    Triple floor I (need operand reason) fun a t => operand = some a ∧ I t := by
  cases operand with
  | none => exact .throw rfl
  | some a => exact .pure fun _ hs => ⟨rfl, hs⟩

theorem triple_needed {operand : Option α} {reason : String} {k : α → Lower β}
    {R : β → Simulation → Prop} (h : ∀ a, operand = some a → Triple floor I (k a) R) :
    Triple floor I (need operand reason >>= k) R :=
  Triple.bind_and (Q := fun _ t => I t) triple_need h

theorem triple_getLocal (index : UInt16) :
    Triple floor I (getLocal f index) fun _ t => I t := by
  apply Triple.get
  intro s _
  split
  · exact .pure fun _ => id
  · exact .throw rfl

/-- An argument is a variable. -/
theorem triple_argument (index : UInt16) :
    Triple floor I (argument f index) fun item t => (∃ v, item.content = .held v) ∧ I t := by
  simp only [argument]
  split
  · split
    · next v _ => exact .pure fun _ hs => ⟨⟨v, rfl⟩, hs⟩
    · exact .throw rfl
  · split
    · exact .pure fun _ hs => ⟨⟨_, rfl⟩, hs⟩
    · split
      · next v _ => exact .pure fun _ hs => ⟨⟨v, rfl⟩, hs⟩
      · exact .throw rfl

theorem triple_parameter (index : UInt16) :
    Triple floor I (parameter f index) fun _ t => I t := by
  apply (triple_argument index).bind
  intro item
  split
  · exact .pure fun _ hs => hs.2
  · exact .throw rfl

theorem triple_fieldVariable (field : FieldRef) :
    Triple floor I (fieldVariable field) fun _ t => I t := by
  simp only [fieldVariable]
  split
  · exact .get fun _ _ => .pure fun _ => id
  · exact .pure fun _ => id

section

variable (hI : Blind I)

include hI

theorem triple_warn (message : String) : Triple floor I (warn message) fun _ t => I t :=
  .modify fun s => hI s _ rfl rfl rfl rfl

theorem triple_temporary (type : String) : Triple floor I (temporary type) fun _ t => I t :=
  fun _ hs => hI.temporary rfl hs

theorem triple_freshVariables (types : List String) :
    Triple floor I (freshVariables types) fun _ t => I t := by
  induction types with
  | nil => exact .pure fun _ => id
  | cons type types ih =>
    exact (triple_temporary hI type).bind fun _ => ih.bind fun _ => .pure fun _ => id

theorem triple_joinVariables (offset : UInt32) (items : List Item) :
    Triple floor I (joinVariables offset items) fun _ t => I t := by
  apply Triple.get
  intro s _
  split
  · split
    · exact .pure fun _ => id
    · exact (triple_warn hI _).bind fun _ => .pure fun _ => id
  · apply (triple_freshVariables hI _).bind
    intro slots
    apply Triple.bind (Q := fun _ t => I t)
    · exact .modify fun t => hI t _ rfl rfl rfl rfl
    · exact fun _ => .pure fun _ => id

theorem triple_declareNone : Triple floor I declareNone fun _ t => I t :=
  fun _ hs => hI.declareNone rfl hs

theorem triple_bindLocal (index : UInt16) (invoke : Option String) :
    Triple floor I (bindLocal f index invoke) fun _ t => I t := by
  apply (triple_getLocal index).bind
  intro v
  apply Triple.bind (Q := fun _ t => I t)
  · exact .modify fun t => hI t _ rfl rfl rfl rfl
  · exact fun _ => .pure fun _ => id

theorem triple_bindField (field : FieldRef) (method : Option String) :
    Triple floor I (bindField field method) fun _ t => I t :=
  .modify fun s => hI s _ rfl rfl rfl rfl

end

end Lower

end PapyrusBackend.Lowering
