import Mathlib.Data.List.Basic
import PapyrusBackend.Lowering.Call
import PapyrusBackend.Proofs.Lowering.Operands

namespace PapyrusBackend.Lowering

open Source

structure Spares (s t : Simulation) : Prop where
  skipNext : t.skipNext = s.skipNext
  locals : t.locals = s.locals
  joins : t.joins = s.joins

theorem Spares.refl (s : Simulation) : Spares s s := ⟨rfl, rfl, rfl⟩

theorem Spares.trans {s t u : Simulation} (h₁ : Spares s t) (h₂ : Spares t u) : Spares s u :=
  ⟨h₂.skipNext.trans h₁.skipNext, h₂.locals.trans h₁.locals, h₂.joins.trans h₁.joins⟩

def Calm (x : Lower α) : Prop :=
  ∀ s, ∃ a t, x s = .ok a t ∧ t.stack = s.stack ∧ Spares s t

theorem Calm.ok {x : Lower α} (h : Calm x) {s t : Simulation} {a : α} (hrun : x s = .ok a t) :
    t.stack = s.stack ∧ Spares s t := by
  obtain ⟨_, _, hrun', hkept⟩ := h s
  cases hrun'.symm.trans hrun
  exact hkept

theorem Calm.pure (a : α) : Calm (pure a) := fun s => ⟨a, s, rfl, rfl, .refl s⟩

theorem Calm.bind {x : Lower α} {k : α → Lower β} (hx : Calm x) (hk : ∀ a, Calm (k a)) :
    Calm (x >>= k) := by
  intro s
  obtain ⟨a, t, hrun, hstack, hspares⟩ := hx s
  obtain ⟨b, u, hrun', hstack', hspares'⟩ := hk a t
  exact ⟨b, u, (bind_run hrun).trans hrun', hstack'.trans hstack, hspares.trans hspares'⟩

theorem Calm.get {k : Simulation → Lower α} (h : ∀ s, Calm (k s)) : Calm (get >>= k) :=
  fun s => h s s

namespace Lower

theorem calm_warn (message : String) : Calm (warn message) :=
  fun _ => ⟨(), _, rfl, rfl, rfl, rfl, rfl⟩

theorem calm_temporary (type : String) : Calm (temporary type) :=
  fun _ => ⟨_, _, rfl, rfl, rfl, rfl, rfl⟩

theorem calm_declareNone : Calm declareNone := by
  intro s
  refine ⟨noneVariable, _, rfl, ?_⟩
  dsimp only
  split
  · exact ⟨rfl, .refl s⟩
  · exact ⟨rfl, rfl, rfl, rfl⟩

theorem calm_fieldVariable (field : FieldRef) : Calm (fieldVariable field) := by
  simp only [fieldVariable]
  split
  · exact .get fun s => .pure _
  · exact .pure _

theorem calm_bindField (field : FieldRef) (method : Option String) :
    Calm (bindField field method) :=
  fun _ => ⟨(), _, rfl, rfl, rfl, rfl, rfl⟩

theorem calm_materialize (opcode : Opcode) (lhs rhs : Value) :
    Calm (materialize opcode lhs rhs) :=
  (calm_temporary "Bool").bind fun _ => .pure _

theorem calm_takeInverted : Calm takeInverted :=
  fun s => ⟨s.inverted, _, rfl, rfl, rfl, rfl, rfl⟩

theorem calm_stage (item : Item) : Calm (stage item) := by
  intro s
  obtain ⟨staged, t, hrun, hstages⟩ := stage_run item s
  refine ⟨staged, t, hrun, ?_⟩
  cases hstages with
  | member _ _ hv =>
    cases hv
    exact ⟨rfl, rfl, rfl, rfl⟩
  | comparison _ _ hv =>
    cases hv
    exact ⟨rfl, rfl, rfl, rfl⟩
  | _ => exact ⟨rfl, .refl s⟩

theorem calm_stageAll (items : List Item) : Calm (stageAll items) := by
  induction items with
  | nil => exact .pure _
  | cons item items ih => exact (calm_stage item).bind fun _ => ih.bind fun _ => .pure _

theorem calm_stagePair (a b : Item) : Calm (stagePair a b) :=
  (calm_stage a).bind fun _ => (calm_stage b).bind fun _ => .pure _

theorem calm_stageCondition (item : Item) (expected : Bool) :
    Calm (stageCondition item expected) := by
  rw [stageCondition]
  split
  · exact (calm_materialize _ _ _).bind fun _ => calm_takeInverted.bind fun _ => .pure _
  · exact (calm_stage item).bind fun _ => .pure _

theorem calm_assign (f : Frame) (v : Variable) (item : Item) : Calm (assign f v item) :=
  (calm_stage item).bind fun _ => .pure _

end Lower

/-- How an action ends that is begun in the simulation `s`. A fault leaves the mark on the next
instruction alone, and for want of operands it is only as `want` says. -/
def Finishes (done : α → Simulation → Prop) (want : Fault → Simulation → Prop) (s : Simulation)
    (x : Lower α) : Prop :=
  match x s with
  | .ok a t => done a t
  | .error fault t => t.skipNext = s.skipNext ∧ (fault.isLocal = true → want fault t)

def Spared (want : Fault → Simulation → Prop) (s : Simulation) (x : Lower α) : Prop :=
  Finishes (fun _ t => Spares s t) want s x

variable {f : Frame} {i : Instr} {s : Simulation} {want : Fault → Simulation → Prop}

theorem Finishes.throw {done : α → Simulation → Prop} {fault : Fault} (h : fault.isLocal = false) :
    Finishes done want s (throw fault : Lower α) :=
  ⟨rfl, fun hlocal => absurd (h.symm.trans hlocal) Bool.false_ne_true⟩

theorem Finishes.mono {done done' : α → Simulation → Prop} {x : Lower α}
    (h : Finishes done want s x) (hdone : ∀ a t, done a t → done' a t) :
    Finishes done' want s x := by
  rw [Finishes] at h ⊢
  cases hrun : x s with
  | error fault t =>
    rw [hrun] at h
    exact h
  | ok a t =>
    rw [hrun] at h
    exact hdone a t h

theorem Spared.ok {x : Lower α} (h : Spared want s x) {a : α} {t : Simulation}
    (hx : x s = .ok a t) : Spares s t := by
  rw [Spared, Finishes, hx] at h
  exact h

theorem Finishes.bind {done : β → Simulation → Prop} {x : Lower α} {k : α → Lower β}
    (hx : Spared want s x) (hk : ∀ a t, x s = .ok a t → Spares s t → Finishes done want t (k a)) :
    Finishes done want s (x >>= k) := by
  rw [Finishes]
  cases hrun : x s with
  | error fault t =>
    rw [Spared, Finishes, hrun] at hx
    rw [bind_fails hrun]
    exact hx
  | ok a t =>
    have hspares := hx.ok hrun
    have hnext := hk a t hrun hspares
    rw [Finishes] at hnext
    rw [bind_run hrun]
    cases hrun' : k a t with
    | error fault u =>
      rw [hrun'] at hnext
      exact ⟨hnext.1.trans hspares.skipNext, hnext.2⟩
    | ok b u =>
      rw [hrun'] at hnext
      exact hnext

theorem Spared.pure (a : α) : Spared want s (pure a) := Spares.refl s

theorem Spared.throw {fault : Fault} (h : fault.isLocal = false) :
    Spared want s (throw fault : Lower α) := Finishes.throw h

theorem Spared.get {k : Simulation → Lower α} (h : Spared want s (k s)) :
    Spared want s (get >>= k) := h

theorem Spared.bind {x : Lower α} {k : α → Lower β} (hx : Spared want s x)
    (hk : ∀ a t, x s = .ok a t → Spared want t (k a)) : Spared want s (x >>= k) :=
  Finishes.bind hx fun a t hrun hspares => (hk a t hrun).mono fun _ _ h => hspares.trans h

theorem Calm.spared {x : Lower α} (h : Calm x) : Spared want s x := by
  obtain ⟨a, t, hrun, _, hspares⟩ := h s
  rw [Spared, Finishes, hrun]
  exact hspares

def lacksReceiver (i : Instr) (stack : Stack) : Bool :=
  match i.code.category, i.method? with
  | .call, some callee =>
    (callee.convention = .thisCall || callee.hasThis) &&
      i.pop.count callee.parameters.length stack.length == stack.length
  | _, _ => false

/-- The fault of an instruction that finds too few operands, and what it leaves behind. -/
inductive Wanting (f : Frame) (i : Instr) (s : Simulation) : Fault → Simulation → Prop
  | operands {needed : Nat} (h : s.stack.length < needed) :
      Wanting f i s (.stackUnderflow f.method.name i.offset needed s.stack.length) s
  | receiver (h : lacksReceiver i s.stack = true) :
      Wanting f i s (.stackUnderflow f.method.name i.offset (s.stack.length + 1) 0)
        { s with stack := [] }

namespace Lower

theorem spared_need (operand : Option α) (reason : String) :
    Spared want s (need operand reason) := by
  cases operand with
  | none => exact .throw rfl
  | some a => exact .pure a

theorem spared_getLocal (index : UInt16) : Spared want s (getLocal f index) := by
  apply Spared.get
  split
  · exact .pure _
  · exact .throw rfl

theorem spared_argument (index : UInt16) : Spared want s (argument f index) := by
  simp only [argument]
  split
  · split
    · exact .pure _
    · exact .throw rfl
  · split
    · exact .pure _
    · split
      · exact .pure _
      · exact .throw rfl

theorem spared_parameter (index : UInt16) : Spared want s (parameter f index) := by
  refine (spared_argument index).bind fun item t _ => ?_
  split
  · exact .pure _
  · exact .throw rfl

theorem underflow_wanting {n : Nat} (h : s.stack.length < n) :
    Spared (Wanting f i s) s (underflow f i n : Lower α) := ⟨rfl, fun _ => .operands h⟩

theorem spared_require (n : Nat) : Spared (Wanting f i s) s (require f i n) := by
  apply Spared.get
  split
  · next h => exact underflow_wanting h
  · exact .pure _

theorem spared_popMany (n : Nat) : Spared (Wanting f i s) s (popMany f i n) := by
  apply Spared.get
  by_cases h : n ≤ s.stack.length
  · simp only [Stack.popMany?, if_pos h]
    exact ⟨rfl, rfl, rfl⟩
  · simp only [Stack.popMany?, if_neg h]
    exact underflow_wanting (Nat.lt_of_not_le h)

theorem spared_popOperands (n : Nat) : Spared (Wanting f i s) s (popOperands f i n) := by
  apply Spared.get
  dsimp only
  split
  · exact spared_popMany _
  · exact .throw rfl

/-- The operands that have been popped are as many as were asked for. -/
theorem popOperands_length {n : Nat} {items : List Item} {t : Simulation}
    (h : popOperands f i n s = .ok items t) : items.length = n := by
  obtain ⟨hle, rfl, _⟩ := popOperands_ok h
  rw [List.length_reverse, List.length_take_of_le hle]

theorem spared_popOperand : Spared (Wanting f i s) s (popOperand f i) := by
  refine (spared_popOperands 1).bind fun items t h => ?_
  obtain ⟨item, rfl⟩ := List.length_eq_one_iff.1 (popOperands_length h)
  exact .pure item

theorem spared_popPair : Spared (Wanting f i s) s (popPair f i) := by
  refine (spared_popOperands 2).bind fun items t h => ?_
  obtain ⟨a, b, rfl⟩ := List.length_eq_two.1 (popOperands_length h)
  exact .pure (a, b)

theorem spared_popTriple : Spared (Wanting f i s) s (popTriple f i) := by
  refine (spared_popOperands 3).bind fun items t h => ?_
  obtain ⟨a, b, c, rfl⟩ := List.length_eq_three.1 (popOperands_length h)
  exact .pure (a, b, c)

theorem spared_propertyName (callee : MethodRef) (location : Location) :
    Spared want s (propertyName f callee location) := by
  simp only [propertyName]
  split
  · split
    · exact .pure _
    · exact .throw rfl
  · exact .pure _

theorem spared_plainReceiver (callee : MethodRef) (declaration : Option MethodDecl) :
    Spared want s (plainReceiver f callee declaration) := by
  have hfound (this : Bool) (location : Location) (t : Simulation) :
      Spared want t
        (do
          let s ← get
          if this = true then
            set { s with stack := s.stack.drop 1 }
            return { location := .self }
          else return { location } : Lower Receiver) := by
    cases this with
    | false => exact .pure _
    | true => exact ⟨rfl, rfl, rfl⟩
  cases declaration with
  | none => exact (calm_warn _).spared.bind fun _ t _ => hfound _ _ t
  | some d => exact hfound _ _ s

/-- The object of a call is looked for when the arguments are no longer on the stack. -/
theorem spared_instanceReceiver (count : Nat)
    (hwant : s.stack = [] → want (.stackUnderflow f.method.name i.offset (count + 1) 0) s) :
    Spared want s (instanceReceiver f i count) := by
  apply Spared.get
  split
  · next hstack =>
    refine ⟨rfl, fun _ => ?_⟩
    rw [hstack]
    exact hwant hstack
  · next item rest hstack =>
    have hset : Spared want s (set { s with stack := rest }) := ⟨rfl, rfl, rfl⟩
    refine hset.bind fun _ t _ => ?_
    split
    · exact .pure _
    · split
      · exact .pure _
      · exact ((calm_stage item).bind fun _ => .pure _).spared

end Lower

end PapyrusBackend.Lowering
