import PapyrusBackend.Lowering.Operators
import PapyrusBackend.Proofs.Lowering.Assigned
import PapyrusBackend.Proofs.Lowering.Triple

namespace PapyrusBackend

structure Instruction.IsPlain (i : Instruction) : Prop where
  arity : i.hasValidArity = true
  opcode : i.opcode.jumpArgument? = none
  target : i.target = none

structure Instruction.IsOrdinary (i : Instruction) : Prop extends i.IsPlain where
  call : i.opcode.isCall = false

namespace Lowering

open Source

def PlainCode (code : List Instruction) : Prop := ∀ i ∈ code, i.IsPlain

def OrdinaryCode (code : List Instruction) : Prop := ∀ i ∈ code, i.IsOrdinary

/-- Pending comparisons do compare, and the marks for what is to be skipped stand as told. -/
structure Stands (P : Bool → Option UInt32 → Prop) (s : Simulation) : Prop where
  sound : Sound s
  marks : P s.skipNext s.skipTo

abbrev Quiet : Simulation → Prop := Stands fun next offset => next = false ∧ offset = none

/-- A triple with apart what holds of the simulation and of the result. -/
def Runs (I : Simulation → Prop) (x : Lower α) (J : Simulation → Prop) (Q : α → Prop) : Prop :=
  Triple Quiet I x fun a t => J t ∧ Q a

variable {f : Frame} {i : Instr} {I J K : Simulation → Prop} {P : Bool → Option UInt32 → Prop}

theorem PlainCode.nil : PlainCode [] := fun _ hi => absurd hi List.not_mem_nil

theorem OrdinaryCode.nil : OrdinaryCode [] := fun _ hi => absurd hi List.not_mem_nil

theorem OrdinaryCode.cons {j : Instruction} {code : List Instruction} (hj : j.IsOrdinary)
    (h : OrdinaryCode code) : OrdinaryCode (j :: code) := List.forall_mem_cons.2 ⟨hj, h⟩

theorem OrdinaryCode.append {code rest : List Instruction} (h : OrdinaryCode code)
    (hrest : OrdinaryCode rest) : OrdinaryCode (code ++ rest) :=
  List.forall_mem_append.2 ⟨h, hrest⟩

theorem OrdinaryCode.plain {code : List Instruction} (h : OrdinaryCode code) : PlainCode code :=
  fun i hi => (h i hi).toIsPlain

theorem Runs.pure {Q : α → Prop} {a : α} (h : Q a) : Runs I (pure a) I Q :=
  Triple.pure fun _ hs => ⟨hs, h⟩

theorem Runs.throw {fault : Fault} (h : fault.isLocal = false) (Q : α → Prop) :
    Runs I (throw fault) J Q := Triple.throw h

theorem Runs.bind {x : Lower α} {k : α → Lower β} {Q : α → Prop} {R : β → Prop}
    (hx : Runs I x J Q) (hk : ∀ a, Q a → Runs J (k a) K R) : Runs I (x >>= k) K R :=
  Triple.bind hx fun a t ht => hk a ht.2 t ht.1

theorem Runs.mono {x : Lower α} {I' J' : Simulation → Prop} {Q Q' : α → Prop}
    (h : Runs I x J Q) (hI : ∀ s, I' s → I s) (hJ : ∀ s, J s → J' s) (hQ : ∀ a, Q a → Q' a) :
    Runs I' x J' Q' :=
  Triple.mono h hI fun a t ht => ⟨hJ t ht.1, hQ a ht.2⟩

theorem Runs.ok {x : Lower α} {Q : α → Prop} (h : Runs I x J Q) {s t : Simulation} {a : α}
    (hs : I s) (hx : x s = .ok a t) : J t ∧ Q a := Triple.ok h hs hx

theorem Runs.get {k : Simulation → Lower α} {Q : α → Prop} (h : ∀ s, I s → Runs I (k s) J Q) :
    Runs I (get >>= k) J Q := Triple.get h

theorem Runs.set {t : Simulation} (h : J t) : Runs I (set t) J fun _ => True :=
  Triple.set ⟨h, trivial⟩

theorem Runs.modify {g : Simulation → Simulation} (h : ∀ s, I s → J (g s)) :
    Runs I (modify g) J fun _ => True :=
  Triple.modify fun s hs => ⟨h s hs, trivial⟩

theorem Runs.of_kept {x : Lower α} (h : Triple Quiet I x fun _ t => I t) :
    Runs I x I fun _ => True :=
  Triple.mono h (fun _ => id) fun _ _ ht => ⟨ht, trivial⟩

theorem blind_stands : Blind (Stands P) := by
  intro s t hstack _ hnext hoffset hs
  have hsound : Sound t := fun item hitem => hs.sound item (hstack ▸ hitem)
  exact ⟨hsound, hnext ▸ hoffset ▸ hs.marks⟩

namespace Lower

theorem runs_push {item : Item} (h : item.isSound = true) :
    Runs (Stands P) (push item) (Stands P) fun _ => True :=
  .modify fun _ hs => ⟨List.forall_mem_cons.2 ⟨h, hs.sound⟩, hs.marks⟩

theorem runs_warn (message : String) : Runs (Stands P) (warn message) (Stands P) fun _ => True :=
  .of_kept (triple_warn blind_stands message)

theorem runs_need {operand : Option α} {reason : String} :
    Runs I (need operand reason) I fun a => operand = some a :=
  triple_need.mono (fun _ => id) fun _ _ ht => ⟨ht.2, ht.1⟩

theorem runs_temporary (type : String) :
    Runs (Stands P) (temporary type) (Stands P) fun _ => True :=
  .of_kept (triple_temporary blind_stands type)

theorem runs_underflow {n : Nat} {Q : α → Prop} : Runs Quiet (underflow f i n) J Q :=
  fun _ hs _ => hs

theorem runs_popMany (n : Nat) :
    Runs Quiet (popMany f i n) Quiet fun items => ∀ item ∈ items, item.isSound = true := by
  refine .get fun s hs => ?_
  by_cases hn : n ≤ s.stack.length
  · simp only [Stack.popMany?, if_pos hn]
    refine (Runs.set ⟨fun item hitem => hs.sound item (List.mem_of_mem_drop hitem),
      hs.marks⟩).bind fun _ _ => .pure ?_
    exact fun item hitem => hs.sound item (List.mem_of_mem_take (List.mem_reverse.1 hitem))
  · simp only [Stack.popMany?, if_neg hn]
    exact runs_underflow

theorem runs_popOperands (n : Nat) :
    Runs Quiet (popOperands f i n) Quiet fun items => ∀ item ∈ items, item.isSound = true := by
  refine .get fun s _ => ?_
  dsimp only
  split
  · exact runs_popMany _
  · exact .throw rfl _

theorem runs_popOperand :
    Runs Quiet (popOperand f i) Quiet fun item => item.isSound = true := by
  refine (runs_popOperands 1).bind fun items hitems => ?_
  split
  · exact .pure (hitems _ List.mem_cons_self)
  · exact runs_underflow

theorem runs_popPair :
    Runs Quiet (popPair f i) Quiet fun pair => pair.1.isSound = true ∧ pair.2.isSound = true := by
  refine (runs_popOperands 2).bind fun items hitems => ?_
  split
  · exact .pure (by simpa using hitems)
  · exact runs_underflow

theorem runs_popTriple :
    Runs Quiet (popTriple f i) Quiet fun triple =>
      triple.1.isSound = true ∧ triple.2.1.isSound = true ∧ triple.2.2.isSound = true := by
  refine (runs_popOperands 3).bind fun items hitems => ?_
  split
  · exact .pure (by simpa using hitems)
  · exact runs_underflow

theorem runs_require (n : Nat) : Runs Quiet (require f i n) Quiet fun _ => True := by
  refine .get fun s _ => ?_
  split
  · exact runs_underflow
  · exact .pure trivial

theorem runs_getLocal (index : UInt16) : Runs I (getLocal f index) I fun _ => True :=
  .of_kept (triple_getLocal index)

theorem runs_argument (index : UInt16) :
    Runs I (argument f index) I fun item => item.isSound = true := by
  apply (triple_argument index).mono fun _ => id
  rintro item t ⟨⟨v, hcontent⟩, ht⟩
  exact ⟨ht, by simp only [Item.isSound, hcontent]⟩

theorem runs_parameter (index : UInt16) : Runs I (parameter f index) I fun _ => True :=
  .of_kept (triple_parameter index)

theorem runs_fieldVariable (field : FieldRef) : Runs I (fieldVariable field) I fun _ => True :=
  .of_kept (triple_fieldVariable field)

theorem isOrdinary_of_compares {opcode : Opcode}
    (h : opcode ∈ [Opcode.cmpEq, .cmpLt, .cmpLe, .cmpGt, .cmpGe]) (d lhs rhs : Value) :
    Instruction.IsOrdinary { opcode, arguments := [d, lhs, rhs] } := by
  refine ⟨⟨?_, ?_, rfl⟩, ?_⟩ <;> revert h <;> cases opcode <;> simp <;> rfl

theorem runs_materialize {opcode : Opcode}
    (h : opcode ∈ [Opcode.cmpEq, .cmpLt, .cmpLe, .cmpGt, .cmpGe]) (lhs rhs : Value) :
    Runs (Stands P) (materialize opcode lhs rhs) (Stands P) fun made => OrdinaryCode made.code :=
  (runs_temporary "Bool").bind fun _ _ => .pure (.cons (isOrdinary_of_compares h _ _ _) .nil)

theorem runs_takeInverted : Runs (Stands P) takeInverted (Stands P) fun _ => True :=
  .get fun _ hs => (Runs.set ⟨hs.sound, hs.marks⟩).bind fun _ _ => .pure trivial

theorem isOrdinary_negation (value : Value) : (negation value).IsOrdinary := ⟨⟨rfl, rfl, rfl⟩, rfl⟩

theorem compares_of_isSound {item : Item} (h : item.isSound = true) {opcode : Opcode}
    {lhs rhs : Value} (hcontent : item.content = .comparison opcode lhs rhs) :
    opcode ∈ [Opcode.cmpEq, .cmpLt, .cmpLe, .cmpGt, .cmpGe] := by
  simpa only [Item.isSound, hcontent, decide_eq_true_eq] using h

theorem runs_stage {item : Item} (h : item.isSound = true) :
    Runs (Stands P) (stage item) (Stands P) fun staged => OrdinaryCode staged.code := by
  apply triple_stages
  intro s staged t hs hstages
  cases hstages with
  | member _ _ hv =>
    exact ⟨((runs_temporary _).ok hs hv).1, .cons ⟨⟨rfl, rfl, rfl⟩, rfl⟩ .nil⟩
  | comparison _ hcontent hv =>
    have ht := ((runs_temporary _).ok hs hv).1
    refine ⟨⟨ht.sound, ht.marks⟩, .cons ?_ ?_⟩
    · exact isOrdinary_of_compares (compares_of_isSound h hcontent) _ _ _
    · cases s.inverted with
      | false => exact .nil
      | true => exact .cons (isOrdinary_negation _) .nil
  | _ => exact ⟨hs, .nil⟩

theorem runs_stageAll {items : List Item} (h : ∀ item ∈ items, item.isSound = true) :
    Runs (Stands P) (stageAll items) (Stands P) fun staged => OrdinaryCode staged.1 := by
  induction items with
  | nil => exact .pure .nil
  | cons item items ih =>
    obtain ⟨hitem, hitems⟩ := List.forall_mem_cons.1 h
    refine (runs_stage hitem).bind fun first hfirst => (ih hitems).bind fun rest hrest => ?_
    exact .pure (hfirst.append hrest)

theorem runs_stagePair {a b : Item} (ha : a.isSound = true) (hb : b.isSound = true) :
    Runs (Stands P) (stagePair a b) (Stands P) fun staged => OrdinaryCode staged.1 :=
  (runs_stage ha).bind fun _ hfirst => (runs_stage hb).bind fun _ hsecond =>
    .pure (hfirst.append hsecond)

theorem runs_assign {v : Variable} {item : Item} (h : item.isSound = true) :
    Runs (Stands P) (assign f v item) (Stands P) OrdinaryCode :=
  (runs_stage h).bind fun _ hstaged => .pure (hstaged.append (.cons ⟨⟨rfl, rfl, rfl⟩, rfl⟩ .nil))

theorem runs_assignAll {vs : List Variable} {items : List Item}
    (h : ∀ item ∈ items, item.isSound = true) :
    Runs (Stands P) (assignAll f vs items) (Stands P) OrdinaryCode := by
  induction vs generalizing items with
  | nil => exact .pure .nil
  | cons v vs ih =>
    cases items with
    | nil => exact .pure .nil
    | cons item items =>
      obtain ⟨hitem, hitems⟩ := List.forall_mem_cons.1 h
      refine (runs_assign hitem).bind fun first hfirst => (ih hitems).bind fun rest hrest => ?_
      exact .pure (hfirst.append hrest)

theorem runs_joinVariables (offset : UInt32) (items : List Item) :
    Runs (Stands P) (joinVariables offset items) (Stands P) fun _ => True :=
  .of_kept (triple_joinVariables blind_stands offset items)

theorem isSound_joined (slots : List Variable) : ∀ item ∈ joined slots, item.isSound = true := by
  intro item hitem
  obtain ⟨v, _, rfl⟩ := List.mem_map.1 (List.mem_reverse.1 hitem)
  rfl

theorem runs_spill (offset : UInt32) (keep : Bool) :
    Runs (Stands P) (spill f offset keep) (Stands P) OrdinaryCode := by
  refine .get fun s hs => ?_
  have hitems : ∀ item ∈ s.stack.reverse, item.isSound = true := fun item hitem =>
    hs.sound item (List.mem_reverse.1 hitem)
  dsimp only
  split
  · exact .pure .nil
  · refine (runs_joinVariables offset _).bind fun slots _ => ?_
    cases slots with
    | none => exact .pure .nil
    | some slots =>
      refine (Runs.modify fun t ht => ⟨fun item hitem => absurd hitem List.not_mem_nil,
        ht.marks⟩).bind fun _ _ => (runs_assignAll hitems).bind fun code hcode => ?_
      cases keep with
      | false => exact .pure hcode
      | true =>
        exact (Runs.modify fun t ht => ⟨isSound_joined slots, ht.marks⟩).bind fun _ _ =>
          .pure hcode

theorem runs_enter (offset : UInt32) :
    Runs (Stands P) (enter f offset) (Stands P) OrdinaryCode := by
  refine .get fun s hs => ?_
  split
  · exact .pure .nil
  · split
    · exact (Runs.set ⟨isSound_joined _, hs.marks⟩).bind fun _ _ => .pure .nil
    · exact runs_spill offset true

section

variable (hP : ∀ next offset, P next offset → P true offset)

include hP

theorem runs_destination (type : String) :
    Runs (Stands P) (destination f type) (Stands P) fun d => OrdinaryCode d.before := by
  apply triple_directs
  intro s d t hs hdirects
  have hrest {rest : Stack} (hsub : ∀ item ∈ rest, item ∈ s.stack) :
      Stands P { s with stack := rest, skipNext := true } :=
    ⟨fun item hitem => hs.sound item (hsub item hitem), hP _ _ hs.marks⟩
  cases hdirects with
  | discard _ hv => exact ⟨((Runs.of_kept (triple_declareNone blind_stands)).ok hs hv).1, .nil⟩
  | push hv => exact ⟨((runs_temporary type).ok hs hv).1, .nil⟩
  | store _ _ => exact ⟨hrest fun _ => id, .nil⟩
  | field _ _ _ hstack _ => exact ⟨hrest fun _ => hstack ▸ List.mem_cons_of_mem _, .nil⟩
  | member _ _ _ hstack _ hstage hv =>
    have hholder := hs.sound _ (hstack ▸ List.mem_cons_self)
    have hstaged := (runs_stage hholder).ok (hrest fun _ => hstack ▸ List.mem_cons_of_mem _) hstage
    exact ⟨((runs_temporary type).ok hstaged.1 hv).1, hstaged.2⟩

omit hP in
theorem runs_finish {d : Destination} (h : OrdinaryCode d.before) :
    Runs (Stands P) (finish d) (Stands P) OrdinaryCode := by
  cases d with
  | push v => exact (runs_push rfl).bind fun _ _ => .pure .nil
  | member v holder field before => exact .pure (h.append (.cons ⟨⟨rfl, rfl, rfl⟩, rfl⟩ .nil))
  | store v => exact .pure .nil
  | discard v => exact .pure .nil

theorem runs_produce (type : String) (code : List Instruction) (make : Value → Instruction) :
    Runs (Stands P) (produce f type code make) (Stands P) fun result =>
      ∃ d rest, result = code ++ make d :: rest ∧ OrdinaryCode rest := by
  refine (runs_destination hP type).bind fun d hd => (runs_finish hd).bind fun rest hrest => ?_
  exact .pure ⟨d.value, rest, rfl, hrest⟩

end

end Lower

end Lowering

end PapyrusBackend
