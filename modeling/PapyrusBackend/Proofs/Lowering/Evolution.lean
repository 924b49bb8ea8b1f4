import Mathlib.Logic.Relation
import PapyrusBackend.Lowering.MethodCode
import PapyrusBackend.Proofs.Lowering.Destinations

namespace PapyrusBackend.Lowering

open Source

def temporariesFrom (k : Nat) : List String → List Variable
  | [] => []
  | type :: types => { name := Lower.temporaryName k, type } :: temporariesFrom (k + 1) types

theorem length_temporariesFrom (k : Nat) (types : List String) :
    (temporariesFrom k types).length = types.length := by
  induction types generalizing k with
  | nil => rfl
  | cons type types ih => rw [temporariesFrom, List.length_cons, ih, List.length_cons]

inductive Change : Simulation → Simulation → Prop
  | stack (s : Simulation) (stack : Stack) : Change s { s with stack }
  | skipNext (s : Simulation) (skipNext : Bool) : Change s { s with skipNext }
  | skipTo (s : Simulation) (skipTo : Option UInt32) : Change s { s with skipTo }
  | inverted (s : Simulation) (inverted : Bool) : Change s { s with inverted }
  | warn (s : Simulation) (message : String) :
      Change s { s with warnings := s.warnings ++ [message] }
  | temporary (s : Simulation) (type : String) :
      Change s { s with
        temporaries := s.temporaries + 1
        «variables» := s.variables ++ [⟨Lower.temporaryName s.temporaries, type⟩] }
  | noneVariable (s : Simulation) (h : ∀ v ∈ s.variables, v.name ≠ Lower.noneVariable.name) :
      Change s { s with «variables» := s.variables ++ [Lower.noneVariable.declaration] }
  | bindLocal (s : Simulation) (k : Nat) (v : Variable) :
      Change s { s with locals := s.locals.set k v }
  | bindField (s : Simulation) (delegates : Bindings) : Change s { s with delegates }
  | join (s : Simulation) {offset : UInt32} (h : s.joins.lookup offset = none)
      (types : List String) :
      Change s { s with
        temporaries := s.temporaries + types.length
        «variables» := s.variables ++
          (temporariesFrom s.temporaries types).map Variable.declaration
        joins := (offset, temporariesFrom s.temporaries types) :: s.joins }

abbrev Becomes : Simulation → Simulation → Prop := Relation.ReflTransGen Change

def simulationAfter : EStateM.Result Fault Simulation α → Simulation
  | .ok _ t => t
  | .error _ t => t

/-- An action changes the simulation `s` by changes of the known kinds. -/
def Evolves (s : Simulation) (x : Lower α) : Prop := Becomes s (simulationAfter (x s))

variable {f : Frame} {i : Instr} {s : Simulation}

theorem Evolves.pure (a : α) : Evolves s (pure a) := .refl

theorem Evolves.throw (fault : Fault) : Evolves s (throw fault : Lower α) := .refl

theorem Evolves.get {k : Simulation → Lower α} (h : Evolves s (k s)) : Evolves s (get >>= k) := h

theorem Evolves.set {t : Simulation} (h : Becomes s t) : Evolves s (set t) := h

theorem Evolves.modify {g : Simulation → Simulation} (h : Change s (g s)) : Evolves s (modify g) :=
  .single h

theorem Evolves.bind {x : Lower α} {k : α → Lower β} (hx : Evolves s x)
    (hk : ∀ a t, Evolves t (k a)) : Evolves s (x >>= k) := by
  show Becomes s (simulationAfter (EStateM.bind x k s))
  rw [Evolves] at hx
  rw [EStateM.bind]
  cases hrun : x s with
  | error fault t =>
    rw [hrun] at hx
    exact hx
  | ok a t =>
    rw [hrun] at hx
    exact hx.trans (hk a t)

theorem Evolves.ok {x : Lower α} (h : Evolves s x) {a : α} {t : Simulation}
    (hrun : x s = .ok a t) : Becomes s t := by
  rwa [Evolves, hrun] at h

/-- What follows a change of the simulation. -/
theorem Evolves.then {x : Lower PUnit} {y : Lower α} (hx : Evolves s x) (hy : ∀ t, Evolves t y) :
    Evolves s (do x; y) := hx.bind fun _ => hy

namespace Lower

theorem evolves_warn (message : String) : Evolves s (warn message) := .modify (.warn s message)

theorem evolves_push (item : Item) : Evolves s (push item) := .modify (.stack s _)

theorem evolves_need (operand : Option α) (reason : String) : Evolves s (need operand reason) := by
  cases operand with
  | none => exact .throw _
  | some a => exact .pure a

theorem evolves_underflow (n : Nat) : Evolves s (underflow f i n : Lower α) := .get (.throw _)

theorem evolves_require (n : Nat) : Evolves s (require f i n) := by
  apply Evolves.get
  split
  · exact evolves_underflow n
  · exact .pure _

theorem evolves_popMany (n : Nat) : Evolves s (popMany f i n) := by
  apply Evolves.get
  split
  · exact (Evolves.set (.single (.stack s _))).then fun _ => .pure _
  · exact evolves_underflow n

theorem evolves_popOperands (n : Nat) : Evolves s (popOperands f i n) := by
  apply Evolves.get
  dsimp only
  split
  · exact evolves_popMany _
  · exact .throw _

theorem evolves_popOperand : Evolves s (popOperand f i) := by
  refine (evolves_popOperands 1).bind fun items t => ?_
  split
  · exact .pure _
  · exact evolves_underflow 1

theorem evolves_popPair : Evolves s (popPair f i) := by
  refine (evolves_popOperands 2).bind fun items t => ?_
  split
  · exact .pure _
  · exact evolves_underflow 2

theorem evolves_popTriple : Evolves s (popTriple f i) := by
  refine (evolves_popOperands 3).bind fun items t => ?_
  split
  · exact .pure _
  · exact evolves_underflow 3

theorem evolves_getLocal (index : UInt16) : Evolves s (getLocal f index) := by
  apply Evolves.get
  split
  · exact .pure _
  · exact .throw _

theorem evolves_bindLocal (index : UInt16) (invoke : Option String) :
    Evolves s (bindLocal f index invoke) :=
  (evolves_getLocal index).bind fun _ t => (Evolves.modify (.bindLocal t _ _)).then fun _ => .pure _

theorem evolves_argument (index : UInt16) : Evolves s (argument f index) := by
  simp only [argument]
  split
  · split
    · exact .pure _
    · exact .throw _
  · split
    · exact .pure _
    · split
      · exact .pure _
      · exact .throw _

theorem evolves_parameter (index : UInt16) : Evolves s (parameter f index) := by
  refine (evolves_argument index).bind fun item t => ?_
  split
  · exact .pure _
  · exact .throw _

theorem evolves_fieldVariable (field : FieldRef) : Evolves s (fieldVariable field) := by
  simp only [fieldVariable]
  split
  · exact .get (.pure _)
  · exact .pure _

theorem evolves_bindField (field : FieldRef) (method : Option String) :
    Evolves s (bindField field method) := .modify (.bindField s _)

theorem evolves_temporary (type : String) : Evolves s (temporary type) :=
  .get ((Evolves.set (.single (.temporary s type))).then fun _ => .pure _)

theorem evolves_declareNone : Evolves s declareNone := by
  refine Evolves.then ?_ fun _ => .pure _
  show Becomes s (if _ then _ else _)
  split
  · exact .refl
  · next hnew =>
    refine .single (.noneVariable s fun v hv hname => hnew ?_)
    exact List.any_eq_true.2 ⟨v, hv, beq_iff_eq.2 hname⟩

theorem evolves_materialize (opcode : Opcode) (lhs rhs : Value) :
    Evolves s (materialize opcode lhs rhs) := (evolves_temporary "Bool").bind fun _ _ => .pure _

theorem evolves_takeInverted : Evolves s takeInverted :=
  .get ((Evolves.set (.single (.inverted s false))).then fun _ => .pure _)

theorem evolves_stage (item : Item) : Evolves s (stage item) := by
  obtain ⟨staged, t, hrun, hstages⟩ := stage_run item s
  rw [Evolves, hrun]
  cases hstages with
  | member _ _ hv => exact (evolves_temporary _).ok hv
  | comparison _ _ hv => exact ((evolves_temporary _).ok hv).tail (.inverted _ false)
  | _ => exact .refl

theorem evolves_stageAll (items : List Item) : Evolves s (stageAll items) := by
  induction items generalizing s with
  | nil => exact .pure _
  | cons item items ih => exact (evolves_stage item).bind fun _ _ => ih.bind fun _ _ => .pure _

theorem evolves_stagePair (a b : Item) : Evolves s (stagePair a b) :=
  (evolves_stage a).bind fun _ _ => (evolves_stage b).bind fun _ _ => .pure _

theorem evolves_assign (v : Variable) (item : Item) : Evolves s (assign f v item) :=
  (evolves_stage item).bind fun _ _ => .pure _

theorem evolves_assignAll (vs : List Variable) (items : List Item) :
    Evolves s (assignAll f vs items) := by
  induction vs generalizing items s with
  | nil => exact .pure _
  | cons v vs ih =>
    cases items with
    | nil => exact .pure _
    | cons item items =>
      exact (evolves_assign v item).bind fun _ _ => (ih items).bind fun _ _ => .pure _

theorem freshVariables_run (types : List String) (s : Simulation) :
    freshVariables types s = .ok (temporariesFrom s.temporaries types) { s with
      temporaries := s.temporaries + types.length
      «variables» := s.variables ++
        (temporariesFrom s.temporaries types).map Variable.declaration } := by
  induction types generalizing s with
  | nil =>
    simp only [temporariesFrom, List.length_nil, Nat.add_zero, List.map_nil, List.append_nil]
    rfl
  | cons type types ih =>
    have hfirst : temporary type s = .ok { name := temporaryName s.temporaries, type } { s with
        temporaries := s.temporaries + 1
        «variables» := s.variables ++ [⟨temporaryName s.temporaries, type⟩] } := rfl
    rw [freshVariables, bind_run hfirst, bind_run (ih _)]
    simp only [temporariesFrom, List.length_cons, List.map_cons, List.append_assoc,
      List.singleton_append, Nat.add_assoc, Nat.add_comm 1]
    rfl

theorem evolves_joinVariables (offset : UInt32) (items : List Item) :
    Evolves s (joinVariables offset items) := by
  apply Evolves.get
  split
  · split
    · exact .pure _
    · exact (evolves_warn _).then fun _ => .pure _
  · next hnew =>
    rw [Evolves, bind_run (freshVariables_run _ s)]
    exact .single (.join s hnew _)

theorem evolves_spill (offset : UInt32) (keep : Bool) : Evolves s (spill f offset keep) := by
  apply Evolves.get
  dsimp only
  split
  · exact .pure _
  · refine (evolves_joinVariables offset _).bind fun slots t => ?_
    cases slots with
    | none => exact .pure _
    | some slots =>
      refine (Evolves.modify (.stack t [])).then fun _ => ?_
      refine (evolves_assignAll slots _).bind fun code u => ?_
      cases keep with
      | false => exact .pure _
      | true => exact (Evolves.modify (.stack u _)).then fun _ => .pure _

theorem evolves_enter (offset : UInt32) : Evolves s (enter f offset) := by
  apply Evolves.get
  split
  · exact .pure _
  · split
    · exact (Evolves.set (.single (.stack s _))).then fun _ => .pure _
    · exact evolves_spill offset true

theorem evolves_destination (type : String) : Evolves s (destination f type) := by
  have hskip (stack : Stack) : Becomes s { s with stack, skipNext := true } :=
    .tail (.single (.stack s stack)) (.skipNext _ true)
  obtain ⟨d, t, hrun, hdirects⟩ | ⟨reason, hrun⟩ := directed_destination f type s
  · rw [Evolves, hrun]
    cases hdirects with
    | discard _ hv => exact evolves_declareNone.ok hv
    | push hv => exact (evolves_temporary type).ok hv
    | store _ _ => exact hskip s.stack
    | field _ _ _ _ _ => exact hskip _
    | member _ _ _ _ _ hstage hv =>
      exact ((hskip _).trans ((evolves_stage _).ok hstage)).trans ((evolves_temporary type).ok hv)
  · rw [Evolves, hrun]
    exact .refl

theorem evolves_finish (d : Destination) : Evolves s (finish d) := by
  cases d with
  | push v => exact (evolves_push _).then fun _ => .pure _
  | _ => exact .pure _

theorem evolves_produce (type : String) (code : List Instruction) (make : Value → Instruction) :
    Evolves s (produce f type code make) :=
  (evolves_destination type).bind fun d _ => (evolves_finish d).bind fun _ _ => .pure _

theorem evolves_arithmetic : Evolves s (arithmetic f i) := by
  have hunary : Evolves s (unary f i) :=
    evolves_popOperand.bind fun item _ => (evolves_stage item).bind fun _ _ => evolves_produce _ _ _
  rw [arithmetic]
  split
  · exact hunary
  · exact hunary
  · refine evolves_popPair.bind fun pair _ => ?_
    dsimp only
    split
    · exact .throw _
    · exact (evolves_stagePair _ _).bind fun _ _ => evolves_produce _ _ _

theorem evolves_conditional : Evolves s (conditional f i) := by
  rw [conditional]
  split
  · exact .throw _
  · refine evolves_popPair.bind fun pair _ => ?_
    exact (evolves_stagePair _ _).bind fun _ _ => evolves_produce _ _ _

theorem evolves_equality (items : List Item) (inequality : Bool) :
    Evolves s (equality f items inequality) := by
  simp only [equality]
  split
  · refine (Evolves.modify (.inverted s inequality)).then fun _ => ?_
    refine (evolves_stagePair _ _).bind fun staged t => ?_
    have hpending (lhs rhs : Value) (code : List Instruction) : Evolves t
        (do
          modify fun s => { s with skipTo := f.next?.map Instr.offset }
          push { content := .comparison .cmpEq lhs rhs, type := "Bool" }
          return code : Lower (List Instruction)) :=
      (Evolves.modify (.skipTo t _)).then fun _ => (evolves_push _).then fun _ => .pure _
    split
    · exact hpending _ _ _
    · split
      · refine (evolves_destination _).bind fun d u => ?_
        refine (Evolves.modify (.inverted u false)).then fun _ => ?_
        exact (evolves_finish d).bind fun _ _ => .pure _
      · exact hpending _ _ _
  · exact .throw _

theorem evolves_branchOnTruth (offset : UInt32) (expected : Bool) :
    Evolves s (branchOnTruth f i offset expected) := by
  refine evolves_popOperand.bind fun item _ => Evolves.bind ?_ fun _ _ =>
    (evolves_spill offset true).bind fun _ _ => .pure _
  rw [stageCondition]
  split
  · exact (evolves_materialize _ _ _).bind fun _ _ => evolves_takeInverted.bind fun _ _ => .pure _
  · exact (evolves_stage item).bind fun _ _ => .pure _

theorem evolves_branchOnComparison (offset : UInt32) :
    Evolves s (branchOnComparison f i offset) := by
  rw [branchOnComparison]
  split
  · exact .throw _
  · refine evolves_popPair.bind fun pair _ => (evolves_stagePair _ _).bind fun _ _ => ?_
    refine (evolves_materialize _ _ _).bind fun _ _ => ?_
    exact (evolves_spill offset true).bind fun _ _ => .pure _

theorem evolves_branch : Evolves s (branch f i) := by
  refine (evolves_need _ _).bind fun offset _ => ?_
  split
  · exact (evolves_spill offset false).bind fun _ _ => .pure _
  · exact evolves_branchOnTruth offset true
  · exact evolves_branchOnTruth offset false
  · exact evolves_branchOnComparison offset

theorem evolves_cast (type : String) : Evolves s (cast f i type) := by
  refine evolves_popOperand.bind fun item t => ?_
  have hkeep (item : Item) : Evolves t (do push item; return [] : Lower (List Instruction)) :=
    (evolves_push item).then fun _ => .pure _
  dsimp only
  split
  · exact hkeep _
  · exact hkeep _
  · split
    · exact hkeep item
    · exact (evolves_stage item).bind fun _ _ => evolves_produce _ _ _

theorem evolves_shuffle : Evolves s (shuffle f i) := by
  rw [shuffle]
  split
  · exact (evolves_require 1).then fun t => (Evolves.modify (.stack t _)).then fun _ => .pure _
  · exact evolves_popOperand.bind fun _ _ => .pure _
  · exact (evolves_require 1).then fun _ => .pure _
  · exact evolves_cast "Float"
  · exact evolves_cast "Float"
  · exact evolves_cast "Int"
  · exact .throw _

theorem evolves_giveBack : Evolves s (giveBack f i) := by
  rw [giveBack]
  split
  · exact .pure _
  · exact evolves_popOperand.bind fun item _ => (evolves_stage item).bind fun _ _ => .pure _

theorem evolves_loadField : Evolves s (loadField f i) := by
  refine (evolves_need _ _).bind fun field _ => evolves_popOperand.bind fun holder t => ?_
  dsimp only
  split
  · split
    · exact (evolves_push _).then fun _ => .pure _
    · exact .throw _
  · exact (evolves_fieldVariable field).bind fun _ _ => (evolves_push _).then fun _ => .pure _

theorem evolves_newObject : Evolves s (newObject f i) := by
  refine (evolves_need _ _).bind fun ctor t => .get ?_
  refine (evolves_popMany _).bind fun items u => ?_
  have hpush (item : Item) (u : Simulation) :
      Evolves u (do push item; return [] : Lower (List Instruction)) :=
    (evolves_push item).then fun _ => .pure _
  dsimp only
  split
  · exact hpush _ _
  · split
    · split
      · exact evolves_produce _ _ _
      · exact (evolves_warn _).then fun t => hpush _ t
    · exact hpush _ _

theorem evolves_load : Evolves s (load f i) := by
  rw [load]
  split
  · refine (evolves_need _ _).bind fun index _ => (evolves_argument index).bind fun _ _ => ?_
    exact (evolves_push _).then fun _ => .pure _
  · refine (evolves_need _ _).bind fun index _ => (evolves_getLocal index).bind fun _ _ => ?_
    exact (evolves_push _).then fun _ => .pure _
  iterate 5 exact (evolves_push _).then fun _ => .pure _
  · exact evolves_loadField
  · exact evolves_loadField
  · refine (evolves_need _ _).bind fun field _ => (evolves_fieldVariable field).bind fun _ _ => ?_
    exact (evolves_push _).then fun _ => .pure _
  · exact (evolves_need _ _).bind fun _ _ => (evolves_push _).then fun _ => .pure _
  · refine evolves_popPair.bind fun pair _ => ?_
    exact (evolves_stagePair _ _).bind fun _ _ => evolves_produce _ _ _
  · exact evolves_popOperand.bind fun item _ => (evolves_stage item).bind fun _ _ =>
      evolves_produce _ _ _
  · exact (evolves_need _ _).bind fun _ _ => evolves_popOperand.bind fun item _ =>
      (evolves_stage item).bind fun _ _ => evolves_produce _ _ _
  · exact evolves_newObject
  · exact .throw _

theorem evolves_storeIn (field : FieldRef) (item : Item) : Evolves s (storeIn f field item) := by
  rw [storeIn]
  split
  · exact (evolves_bindField field _).then fun _ => .pure _
  · exact (evolves_fieldVariable field).bind fun v _ => evolves_assign v item

theorem evolves_storeLocal : Evolves s (storeLocal f i) := by
  refine (evolves_need _ _).bind fun index _ => evolves_popOperand.bind fun item t => ?_
  split
  · exact (evolves_bindLocal index _).bind fun _ _ => .pure _
  · refine (evolves_getLocal index).bind fun v _ => ?_
    split
    · exact .pure _
    · exact evolves_assign v item

theorem evolves_storeField : Evolves s (storeField f i) := by
  refine (evolves_need _ _).bind fun field _ => evolves_popPair.bind fun pair t => ?_
  dsimp only
  split
  · exact (evolves_stagePair _ _).bind fun _ _ => .pure _
  · exact evolves_storeIn field _

theorem evolves_store : Evolves s (store f i) := by
  rw [store]
  split
  · exact evolves_storeLocal
  · refine (evolves_need _ _).bind fun index _ => evolves_popOperand.bind fun item _ => ?_
    exact (evolves_parameter index).bind fun v _ => evolves_assign v item
  · exact (evolves_need _ _).bind fun field _ => evolves_popOperand.bind fun item _ =>
      evolves_storeIn field item
  · exact evolves_storeField
  · refine evolves_popTriple.bind fun triple _ => (evolves_stage _).bind fun _ _ => ?_
    exact (evolves_stage _).bind fun _ _ => (evolves_stage _).bind fun _ _ => .pure _
  · exact .throw _

theorem evolves_joinTexts (destination first : Value) (values : List Value) :
    Evolves s (joinTexts destination first values) := by
  induction values generalizing first s with
  | nil => exact .pure _
  | cons second rest ih =>
    cases rest with
    | nil => exact .pure _
    | cons third rest =>
      exact (evolves_temporary "String").bind fun v _ => (ih v.value).bind fun _ _ => .pure _

theorem evolves_concat (items : List Item) : Evolves s (concat f items) := by
  refine (evolves_destination _).bind fun d _ => (evolves_stageAll items).bind fun staged t => ?_
  dsimp only
  split
  · exact (evolves_finish d).bind fun _ _ => .pure _
  · exact (evolves_finish d).bind fun _ _ => .pure _
  · exact (evolves_joinTexts _ _ _).bind fun _ _ => (evolves_finish d).bind fun _ _ => .pure _

theorem evolves_property (callee : MethodRef) (items : List Item) (location : Location) :
    Evolves s (property f callee items location) := by
  rw [property]
  split
  · exact .throw _
  · refine Evolves.bind ?_ fun name t => ?_
    · simp only [propertyName]
      split
      · split
        · exact .pure _
        · exact .throw _
      · exact .pure _
    · split
      · exact evolves_produce _ _ _
      · cases items with
        | nil => exact .throw _
        | cons item items => exact (evolves_stage item).bind fun _ _ => .pure _

theorem evolves_plainCall (callee : MethodRef) (items : List Item) (receiver : Receiver) :
    Evolves s (plainCall f callee items receiver) :=
  (evolves_stageAll items).bind fun _ _ => evolves_produce _ _ _

theorem evolves_callBody (callee : MethodRef) (declaration : Option MethodDecl) (items : List Item)
    (receiver : Receiver) : Evolves s (callBody f callee declaration items receiver) := by
  rw [callBody]
  split
  · exact .pure _
  split
  · exact evolves_concat items
  split
  · exact evolves_equality items false
  split
  · exact evolves_equality items true
  split
  · exact evolves_property callee items _
  · exact evolves_plainCall callee items receiver

theorem evolves_instanceReceiver (count : Nat) : Evolves s (instanceReceiver f i count) := by
  apply Evolves.get
  split
  · exact evolves_underflow _
  · refine (Evolves.set (.single (.stack s _))).then fun _ => ?_
    split
    · exact .pure _
    · split
      · exact .pure _
      · exact (evolves_stage _).bind fun _ _ => .pure _

theorem evolves_plainReceiver (callee : MethodRef) (declaration : Option MethodDecl) :
    Evolves s (plainReceiver f callee declaration) := by
  have hfound (this : Bool) (location : Location) (t : Simulation) :
      Evolves t
        (do
          let s ← get
          if this = true then
            set { s with stack := s.stack.drop 1 }
            return { location := .self }
          else return { location } : Lower Receiver) := by
    apply Evolves.get
    cases this with
    | false => exact .pure _
    | true => exact (Evolves.set (.single (.stack t _))).then fun _ => .pure _
  cases declaration with
  | none => exact (evolves_warn _).then fun t => hfound _ _ t
  | some d => exact hfound _ _ s

theorem evolves_call : Evolves s (call f i) := by
  refine (evolves_need _ _).bind fun callee _ => .get ?_
  refine (evolves_popMany _).bind fun items t => ?_
  have hbody (receiver : Receiver) (t : Simulation) : Evolves t (do
      return receiver.code ++
        (← callBody f callee ((f.program.method? callee).map Prod.snd) items receiver)) :=
    (evolves_callBody callee _ items receiver).bind fun _ _ => .pure _
  dsimp only
  split
  · exact (evolves_instanceReceiver _).bind hbody
  · exact (evolves_plainReceiver callee _).bind hbody

theorem evolves_step : Evolves s (step f i) := by
  rw [step]
  split
  · exact .pure _
  · exact evolves_load
  · exact evolves_store
  · exact evolves_call
  · exact evolves_branch
  · exact evolves_conditional
  · exact evolves_giveBack
  · exact evolves_arithmetic
  · exact evolves_shuffle

theorem evolves_tolerate (policy : Policy) {code : Lower (List Instruction)}
    (h : ∀ s, Evolves s code) : Evolves s (tolerate policy i code) := by
  have hcode := h s
  rw [Evolves] at hcode ⊢
  rw [tolerate]
  cases hrun : code s with
  | ok made t =>
    rw [hrun] at hcode
    exact hcode
  | error fault t =>
    rw [hrun] at hcode
    dsimp only
    split
    · exact hcode.tail (.warn t _)
    · exact hcode

theorem evolves_visit (policy : Policy) (line : UInt16) : Evolves s (visit f policy line i) := by
  apply Evolves.get
  split
  · exact (Evolves.set (.single (.skipNext s false))).then fun _ => .pure _
  · split
    · exact .pure _
    · refine (Evolves.set (.single (.skipTo s none))).then fun _ => ?_
      refine (evolves_enter _).bind fun _ _ => ?_
      exact (evolves_tolerate policy fun _ => evolves_step).bind fun _ _ => .pure _

theorem evolves_visitAll (policy : Policy) (position : Nat) (line : UInt16) (instrs : List Instr) :
    Evolves s (visitAll f policy position line instrs) := by
  induction instrs generalizing position line s with
  | nil => exact .pure _
  | cons i rest ih =>
    exact (evolves_visit policy _).bind fun _ _ => (ih _ _).bind fun _ _ => .pure _

end Lower

end PapyrusBackend.Lowering
