import PapyrusBackend.Lowering.Destination
import PapyrusBackend.Proofs.Lowering.Operands

namespace PapyrusBackend.Lowering

open Source

/-- The variable of an argument. In instance methods the first one is the object itself. -/
def argumentVariable? (f : Frame) (index : UInt16) : Option Variable :=
  if f.method.isStatic then f.parameters[index.toNat]?
  else if index = 0 then some { name := "self", type := "" }
  else f.parameters[index.toNat - 1]?

def unboundVariable (field : FieldRef) : Variable :=
  { name := Naming.fieldName field.name
    type := Naming.typeName field.type
    isDelegate := field.type.isDelegate }

def storeVariable? (f : Frame) (locals : List Variable) (store : Instr) : Option Variable :=
  match store.code with
  | .stloc => store.index?.bind fun index => locals[index.toNat]?
  | .starg => store.index?.bind (argumentVariable? f)
  | .stsfld | .stfld => store.field?.map unboundVariable
  | _ => none

theorem argumentVariable?_plain {f : Frame} {index : UInt16} {v : Variable}
    (h : argumentVariable? f index = some v) : v.isDelegate = false := by
  have hparameter {k : Nat} (h : f.parameters[k]? = some v) : v.isDelegate = false := by
    obtain ⟨p, _, rfl⟩ := List.mem_map.1 (List.mem_of_getElem? h)
    rfl
  rw [argumentVariable?] at h
  split at h
  · exact hparameter h
  · split at h
    · cases h
      rfl
    · exact hparameter h

/-- The store that follows writes `v`, and nothing forbids to make it at once. -/
structure StoreFollows (f : Frame) (s : Simulation) (store : Instr) (v : Variable) : Prop where
  next : f.next? = some store
  free : ∀ j ∈ f.method.body, j.target? ≠ some store.offset
  stored : storeVariable? f s.locals store = some v
  plain : v.isDelegate = false

namespace Lower

/-- What comes of the choice of a destination. A store that follows is made at once if it writes no
delegate; a store into an object takes the object from the stack for that. -/
inductive Directs (f : Frame) (type : String) (s : Simulation) : Destination → Simulation → Prop
  | discard {v : Variable} {t : Simulation} (htype : Text.sameName type "none" = true)
      (hv : declareNone s = .ok v t) : Directs f type s (.discard v) t
  | push {v : Variable} {t : Simulation} (hv : temporary type s = .ok v t) :
      Directs f type s (.push v) t
  | store {next : Instr} {v : Variable} (hfollows : StoreFollows f s next v)
      (hcode : next.code ≠ .stfld) : Directs f type s (.store v) { s with skipNext := true }
  | field {next : Instr} {field : FieldRef} {holder : Item} {rest : Stack}
      (hfollows : StoreFollows f s next (unboundVariable field)) (hcode : next.code = .stfld)
      (hfield : next.field? = some field) (hstack : s.stack = holder :: rest)
      (hholder : Naming.isStruct holder.type = false) :
      Directs f type s (.store (unboundVariable field))
        { s with stack := rest, skipNext := true }
  | member {next : Instr} {field : FieldRef} {holder : Item} {rest : Stack} {staged : Staged}
      {v : Variable} {t u : Simulation}
      (hfollows : StoreFollows f s next (unboundVariable field)) (hcode : next.code = .stfld)
      (hfield : next.field? = some field) (hstack : s.stack = holder :: rest)
      (hholder : Naming.isStruct holder.type = true)
      (hstage : stage holder { s with stack := rest, skipNext := true } = .ok staged t)
      (hv : temporary type t = .ok v u) :
      Directs f type s (.member v staged.value field.name staged.code) u

def Directed (f : Frame) (type : String) (s : Simulation) (x : Lower Destination) : Prop :=
  (∃ d t, x s = .ok d t ∧ Directs f type s d t) ∨ ∃ reason, x s = .error (.invalidSource reason) s

variable {f : Frame} {type : String} {s : Simulation}

theorem argument_run {index : UInt16} {v : Variable} (h : argumentVariable? f index = some v) :
    ∃ item, argument f index s = .ok item s ∧ item.content = .held v := by
  simp only [argumentVariable?] at h
  simp only [argument]
  split at h
  · next hstatic =>
    rw [if_pos hstatic]
    simp only [h]
    exact ⟨.ofVariable v, rfl, rfl⟩
  · next hstatic =>
    rw [if_neg hstatic]
    split at h
    · next hfirst =>
      rw [if_pos hfirst]
      cases h
      exact ⟨.this f.target.name, rfl, rfl⟩
    · next hfirst =>
      rw [if_neg hfirst]
      simp only [h]
      exact ⟨.ofVariable v, rfl, rfl⟩

theorem parameter_run {index : UInt16} {v : Variable} (h : argumentVariable? f index = some v) :
    parameter f index s = .ok v s := by
  obtain ⟨item, hargument, hcontent⟩ := argument_run h (s := s)
  rw [parameter, bind_run hargument, hcontent]
  rfl

theorem parameter_missing {index : UInt16} (h : argumentVariable? f index = none) :
    ∃ reason, parameter f index s = .error (.invalidSource reason) s := by
  simp only [argumentVariable?] at h
  simp only [parameter, argument]
  split at h
  · next hstatic =>
    rw [if_pos hstatic]
    simp only [h]
    exact ⟨_, rfl⟩
  · next hstatic =>
    rw [if_neg hstatic]
    split at h
    · cases h
    · next hfirst =>
      rw [if_neg hfirst]
      simp only [h]
      exact ⟨_, rfl⟩

theorem parameter_state {index : UInt16} {v : Variable} {t : Simulation}
    (h : parameter f index s = .ok v t) : t = s := by
  cases hv : argumentVariable? f index with
  | none =>
    obtain ⟨_, hrun⟩ := parameter_missing (s := s) hv
    cases hrun.symm.trans h
  | some w =>
    cases (parameter_run hv).symm.trans h
    rfl

theorem fieldVariable_state {field : FieldRef} {v : Variable} {t : Simulation}
    (h : fieldVariable field s = .ok v t) : t = s := by
  rw [fieldVariable] at h
  split at h <;> cases h <;> rfl

/-- A field that holds no delegate is known from its reference alone. -/
theorem fieldVariable_plain {field : FieldRef} (h : field.type.isDelegate = false) :
    fieldVariable field = pure (unboundVariable field) := by
  simp only [fieldVariable, unboundVariable, h]
  rfl

theorem getLocal_run {index : UInt16} {v : Variable} (h : s.locals[index.toNat]? = some v) :
    getLocal f index s = .ok v s := by
  rw [getLocal, get_bind, h]
  rfl

theorem getLocal_missing {index : UInt16} (h : s.locals[index.toNat]? = none) :
    ∃ reason, getLocal f index s = .error (.invalidSource reason) s := by
  rw [getLocal, get_bind, h]
  exact ⟨_, rfl⟩

theorem directed_pushTemporary : Directed f type s (pushTemporary type) :=
  .inl ⟨_, _, rfl, .push rfl⟩

/-- Something is looked up first. -/
theorem Directed.read {x : Lower α} {k : α → Lower Destination} {a : α} (hx : x s = .ok a s)
    (h : Directed f type s (k a)) : Directed f type s (x >>= k) := by
  rw [Directed, bind_run hx]
  exact h

theorem Directed.missing {x : Lower α} {k : α → Lower Destination}
    (hx : ∃ reason, x s = .error (.invalidSource reason) s) : Directed f type s (x >>= k) := by
  obtain ⟨reason, hx⟩ := hx
  exact .inr ⟨reason, bind_fails hx⟩

theorem directed_holderDestination {next : Instr} {field : FieldRef}
    (hfollows : StoreFollows f s next (unboundVariable field)) (hcode : next.code = .stfld)
    (hfield : next.field? = some field) : Directed f type s (holderDestination type field) := by
  rw [Directed, holderDestination, get_bind]
  cases hstack : s.stack with
  | nil => exact directed_pushTemporary
  | cons holder rest =>
    have hset : (set { s with stack := rest, skipNext := true } : Lower PUnit) s =
        .ok () { s with stack := rest, skipNext := true } := rfl
    dsimp only
    rw [bind_run hset]
    left
    cases hholder : Naming.isStruct holder.type with
    | true =>
      obtain ⟨staged, t, hstage, _⟩ := stage_run holder { s with stack := rest, skipNext := true }
      rw [if_pos rfl, bind_run hstage]
      exact ⟨_, _, rfl, .member hfollows hcode hfield hstack hholder hstage rfl⟩
    | false =>
      rw [if_neg Bool.false_ne_true, fieldVariable_plain hfollows.plain]
      exact ⟨_, _, rfl, .field hfollows hcode hfield hstack hholder⟩

theorem directed_need {operand : Option α} {message : String} {k : α → Lower Destination}
    (h : ∀ a, operand = some a → Directed f type s (k a)) :
    Directed f type s (need operand message >>= k) := by
  cases operand with
  | none => exact .missing ⟨_, rfl⟩
  | some a => exact .read (show need (some a) message s = .ok a s from rfl) (h a rfl)

section

variable {next : Instr} (hnext : f.next? = some next)
  (hfree : next.code.isStore = true → ∀ j ∈ f.method.body, j.target? ≠ some next.offset)

include hnext hfree

theorem directed_stloc (hcode : next.code = .stloc) :
    Directed f type s (followingDestination f type next) := by
  simp only [followingDestination, hcode]
  refine directed_need fun index hindex => ?_
  cases hv : s.locals[index.toNat]? with
  | none => exact .missing (getLocal_missing hv)
  | some v =>
    refine .read (getLocal_run hv) ?_
    cases hplain : v.isDelegate with
    | true => exact directed_pushTemporary
    | false =>
      have hstored : storeVariable? f s.locals next = some v := by
        simp only [storeVariable?, hcode, hindex, Option.bind_some, hv]
      have hfollows : StoreFollows f s next v :=
        ⟨hnext, hfree (by rw [hcode]; rfl), hstored, hplain⟩
      exact .inl ⟨_, _, rfl, .store hfollows (by simp [hcode])⟩

theorem directed_starg (hcode : next.code = .starg) :
    Directed f type s (followingDestination f type next) := by
  simp only [followingDestination, hcode]
  refine directed_need fun index hindex => ?_
  cases hv : argumentVariable? f index with
  | none => exact .missing (parameter_missing hv)
  | some v =>
    refine .read (parameter_run hv) ?_
    have hstored : storeVariable? f s.locals next = some v := by
      simp only [storeVariable?, hcode, hindex, Option.bind_some, hv]
    have hfollows : StoreFollows f s next v :=
      ⟨hnext, hfree (by rw [hcode]; rfl), hstored, argumentVariable?_plain hv⟩
    exact .inl ⟨_, _, rfl, .store hfollows (by simp [hcode])⟩

theorem storeFollows_field {field : FieldRef} (hcode : next.code = .stsfld ∨ next.code = .stfld)
    (hfield : next.field? = some field) (hplain : field.type.isDelegate = false) :
    StoreFollows f s next (unboundVariable field) where
  next := hnext
  free := hfree (by obtain hcode | hcode := hcode <;> rw [hcode] <;> rfl)
  stored := by
    obtain hcode | hcode := hcode <;> simp only [storeVariable?, hcode, hfield, Option.map_some]
  plain := hplain

theorem directed_stsfld (hcode : next.code = .stsfld) :
    Directed f type s (followingDestination f type next) := by
  simp only [followingDestination, hcode]
  cases hfield : next.field? with
  | none => exact .inr ⟨_, rfl⟩
  | some field =>
    cases hplain : field.type.isDelegate with
    | true =>
      simp only [hplain, if_true]
      exact directed_pushTemporary
    | false =>
      have hfollows := storeFollows_field (s := s) hnext hfree (.inl hcode) hfield hplain
      simp only [hplain, Bool.false_eq_true, if_false, fieldVariable_plain hplain]
      exact .inl ⟨_, _, rfl, .store hfollows (by simp [hcode])⟩

theorem directed_stfld (hcode : next.code = .stfld) :
    Directed f type s (followingDestination f type next) := by
  simp only [followingDestination, hcode]
  cases hfield : next.field? with
  | none => exact .inr ⟨_, rfl⟩
  | some field =>
    cases hplain : field.type.isDelegate with
    | true =>
      simp only [hplain, if_true]
      exact directed_pushTemporary
    | false =>
      simp only [hplain, Bool.false_eq_true, if_false]
      exact directed_holderDestination (storeFollows_field hnext hfree (.inr hcode) hfield hplain)
        hcode hfield

theorem directed_followingDestination : Directed f type s (followingDestination f type next) := by
  cases hcode : next.code with
  | stloc => exact directed_stloc hnext hfree hcode
  | starg => exact directed_starg hnext hfree hcode
  | stsfld => exact directed_stsfld hnext hfree hcode
  | stfld => exact directed_stfld hnext hfree hcode
  | _ =>
    simp only [followingDestination, hcode]
    exact directed_pushTemporary

end

theorem directed_destination (f : Frame) (type : String) (s : Simulation) :
    Directed f type s (destination f type) := by
  simp only [destination]
  split
  · next htype => exact .inl ⟨_, _, rfl, .discard htype rfl⟩
  · cases hnext : f.next? with
    | none => exact directed_pushTemporary
    | some next =>
      dsimp only
      split
      · exact directed_pushTemporary
      · next hmay =>
        refine directed_followingDestination hnext fun hstore j hj htarget => hmay ?_
        rw [hstore, Bool.true_and]
        exact List.any_eq_true.2 ⟨j, hj, beq_iff_eq.2 htarget⟩

theorem destination_directs {d : Destination} {t : Simulation}
    (h : destination f type s = .ok d t) : Directs f type s d t := by
  obtain ⟨_, _, hrun, hdirects⟩ | ⟨_, hrun⟩ := directed_destination f type s
  · cases hrun.symm.trans h
    exact hdirects
  · cases hrun.symm.trans h

end Lower

end PapyrusBackend.Lowering
