import Mathlib.Data.List.Forall2
import PapyrusBackend.Proofs.Lowering.EmittedStep

namespace PapyrusBackend

def Instruction.action (i : Instruction) : Opcode × List Value × List Value :=
  (i.opcode, i.arguments, i.variadic)

namespace Lowering

open Source

namespace Lower

/-- Items are staged one after the other. What is made for one of them is not written again when
those behind it are staged. -/
inductive StagesAll :
    Simulation → List Item → List Instruction → List Value → Simulation → Prop
  | nil {s : Simulation} : StagesAll s [] [] [] s
  | cons {s t u : Simulation} {item : Item} {items : List Item} {staged : Staged}
      {code : List Instruction} {values : List Value} (hfirst : Stages s item staged t)
      (hrest : StagesAll t items code values u)
      (hkept : (assignedNames staged.code).Disjoint (assignedNames code)) :
      StagesAll s (item :: items) (staged.code ++ code) (staged.value :: values) u

def takesObject (callee : MethodRef) : Bool := callee.convention = .thisCall || callee.hasThis

/-- A callee without an object of its own belongs to its type if it is declared to be static. If it
is not declared its name decides, unless the object whose method runs lies below the arguments. -/
def callsType (f : Frame) (callee : MethodRef) (stack : Stack) : Bool :=
  match f.program.method? callee with
  | some (_, declared) => declared.isStatic
  | none => Naming.isStaticByName callee.qualifiedName && !stack.head?.any Item.isThis

def unresolvedWarnings (f : Frame) (callee : MethodRef) : List String :=
  match f.program.method? callee with
  | some _ => []
  | none => [f.method.name ++ ": unresolved callee " ++ callee.qualifiedName]

/-- The object whose method runs is taken from the stack if it lies on top. -/
def withoutThis (stack : Stack) : Stack :=
  if stack.head?.any Item.isThis then stack.drop 1 else stack

/-- What a call names besides its result, once the arguments have been taken from the stack: the
opcode, and the method with what it is called on. An object is staged in front of the arguments. -/
inductive Addressed (f : Frame) (callee : MethodRef) (s : Simulation) :
    List Instruction → Simulation → Opcode → List Value → Prop
  | delegate {item : Item} {rest : Stack} {v : Variable} (htakes : takesObject callee = true)
      (hstack : s.stack = item :: rest) (hitem : item.delegate? = some v) :
      Addressed f callee s [] { s with stack := rest } .callMethod
        [.reference (calledName f callee (some v)), .reference "self"]
  | this {item : Item} {rest : Stack} (htakes : takesObject callee = true)
      (hstack : s.stack = item :: rest) (hplain : item.delegate? = none)
      (hitem : item.isThis = true) :
      Addressed f callee s [] { s with stack := rest } .callMethod
        [.reference callee.name, .reference "self"]
  | object {item : Item} {rest : Stack} {staged : Staged} {t : Simulation}
      (htakes : takesObject callee = true) (hstack : s.stack = item :: rest)
      (hplain : item.delegate? = none) (hitem : item.isThis = false)
      (hstages : Stages { s with stack := rest } item staged t) :
      Addressed f callee s staged.code t .callMethod [.reference callee.name, staged.value]
  | type (htakes : takesObject callee = false) (htype : callsType f callee s.stack = true) :
      Addressed f callee s [] { s with warnings := s.warnings ++ unresolvedWarnings f callee }
        .callStatic [.reference (staticLocation callee), .reference callee.name]
  | running (htakes : takesObject callee = false) (htype : callsType f callee s.stack = false) :
      Addressed f callee s []
        { s with
          stack := withoutThis s.stack
          warnings := s.warnings ++ unresolvedWarnings f callee }
        .callMethod [.reference callee.name, .reference "self"]

end Lower

def Mismatched (p : Parameter) (value : Value) : Prop :=
  p.type.isValue = true ∧ value.kind ≠ .reference ∧ value.kind.typeName ≠ Naming.typeName p.type

inductive PassedAs (coerce : String → Value → Value) (declared : Option Parameter)
    (value : Value) : Value → Prop
  | same (h : ∀ p ∈ declared, ¬Mismatched p value) : PassedAs coerce declared value value
  | coerced {p : Parameter} (hp : declared = some p) (h : Mismatched p value) :
      PassedAs coerce declared value (coerce (Naming.typeName p.type) value)

def argumentDepth (i : Instr) (callee : MethodRef) (stack : Stack) : Nat :=
  i.pop.count callee.parameters.length stack.length

def argumentItems (i : Instr) (callee : MethodRef) (stack : Stack) : List Item :=
  (stack.take (argumentDepth i callee stack)).reverse

/-- `j` calls what the managed instruction `i` calls in the simulation `s`, and the code `before`
does nothing but to get its operands ready. -/
structure IsCallOf (f : Frame) (i : Instr) (callee : MethodRef) (s : Simulation)
    (before : List Instruction) (j : Instruction) : Prop where
  category : i.code.category = .call
  method : i.method? = some callee
  enough : argumentDepth i callee s.stack ≤ s.stack.length
  fixed : j.arguments.length = 3
  length : j.variadic.length = (argumentItems i callee s.stack).length
  perParameter : i.pop = i.code.defaultPop → j.variadic.length = callee.parameters.length
  operands : ∃ lead t code values u,
    Lower.Addressed f callee { s with stack := s.stack.drop (argumentDepth i callee s.stack) } lead
      t j.opcode (j.arguments.take 2) ∧
    Lower.StagesAll t (argumentItems i callee s.stack) code values u ∧
    (assignedNames lead).Disjoint (assignedNames code) ∧
    before.map Instruction.action = (lead ++ code).map Instruction.action ∧
    ∀ (n : Nat) value, values[n]? = some value → ∃ argument, j.variadic[n]? = some argument ∧
      PassedAs f.coerce callee.parameters[n]? value argument

theorem IsCallOf.congr {f : Frame} {i : Instr} {callee : MethodRef} {s : Simulation}
    {before before' : List Instruction} {j j' : Instruction} (h : IsCallOf f i callee s before j)
    (hbefore : before'.map Instruction.action = before.map Instruction.action)
    (hj : j'.action = j.action) : IsCallOf f i callee s before' j' := by
  obtain ⟨hopcode, hfixed⟩ := Prod.mk.inj hj
  obtain ⟨harguments, hvariadic⟩ := Prod.mk.inj hfixed
  have hoperands := h.operands
  rw [← hbefore, ← hopcode, ← harguments, ← hvariadic] at hoperands
  exact ⟨h.category, h.method, h.enough, harguments ▸ h.fixed, hvariadic ▸ h.length,
    hvariadic ▸ h.perParameter, hoperands⟩

namespace Lower

variable {f : Frame} {i : Instr} {s t : Simulation} {code : List Instruction}

theorem Stages.temporaries_le {item : Item} {staged : Staged} (h : Stages s item staged t) :
    s.temporaries ≤ t.temporaries := by
  cases h with
  | member _ _ hv =>
    cases hv
    exact Nat.le_succ _
  | comparison _ _ hv =>
    cases hv
    exact Nat.le_succ _
  | _ => exact Nat.le_refl _

theorem StagesAll.assigned {items : List Item} (hsound : ∀ item ∈ items, item.isSound = true)
    {values : List Value} (h : StagesAll s items code values t) {name : String}
    (hname : name ∈ assignedNames code) : ∃ k, s.temporaries ≤ k ∧ name = temporaryName k := by
  induction h with
  | nil => cases hname
  | cons hfirst _ _ ih =>
    obtain ⟨hitem, hitems⟩ := List.forall_mem_cons.1 hsound
    rw [assignedNames, List.flatMap_append, List.mem_append] at hname
    obtain hname | hname := hname
    · exact ⟨_, Nat.le_refl _, (hfirst.assigned hitem hname).1⟩
    · obtain ⟨k, hk, hname⟩ := ih hitems hname
      exact ⟨k, Nat.le_trans hfirst.temporaries_le hk, hname⟩

/-- Temporaries are numbered on, so that none is written twice. -/
theorem StagesAll.disjoint {items : List Item} (hsound : ∀ item ∈ items, item.isSound = true)
    {values : List Value} (h : StagesAll s items code values t) {front : List Instruction}
    (hfront : ∀ name ∈ assignedNames front, ∃ k < s.temporaries, name = temporaryName k) :
    (assignedNames front).Disjoint (assignedNames code) := by
  intro name hname hname'
  obtain ⟨k, hk, rfl⟩ := hfront name hname
  obtain ⟨l, hl, heq⟩ := h.assigned hsound hname'
  cases temporaryName_inj heq
  exact Nat.not_le.2 hk hl

theorem stageAll_stagesAll {items : List Item} (hsound : ∀ item ∈ items, item.isSound = true)
    {values : List Value} (h : stageAll items s = .ok (code, values) t) :
    StagesAll s items code values t := by
  induction items generalizing s t code values with
  | nil =>
    cases h
    exact .nil
  | cons item items ih =>
    obtain ⟨hitem, hitems⟩ := List.forall_mem_cons.1 hsound
    obtain ⟨first, t', hfirst, h⟩ := bind_ok h
    obtain ⟨⟨code', values'⟩, t'', hothers, h⟩ := bind_ok h
    cases h
    have hstages := stage_stages hfirst
    have hrest := ih hitems hothers
    refine .cons hstages hrest (hrest.disjoint hitems fun name hname => ?_)
    obtain ⟨rfl, ht⟩ := hstages.assigned hitem hname
    exact ⟨_, ht ▸ Nat.lt_succ_self _, rfl⟩

theorem StagesAll.length_eq {items : List Item} {values : List Value}
    (h : StagesAll s items code values t) : values.length = items.length := by
  induction h with
  | nil => rfl
  | cons _ _ _ ih => exact congrArg (· + 1) ih

theorem coerceArgument_passedAs (f : Frame) (p : Parameter) (value : Value) :
    PassedAs f.coerce (some p) value (coerceArgument f p value) := by
  have hiff : (p.type.isValue && value.kind ≠ .reference &&
      value.kind.typeName ≠ Naming.typeName p.type) = true ↔ Mismatched p value := by
    simp [Mismatched, and_assoc]
  rw [coerceArgument]
  by_cases hmismatched : Mismatched p value
  · rw [if_pos (hiff.2 hmismatched)]
    exact .coerced rfl hmismatched
  · rw [if_neg (mt hiff.1 hmismatched)]
    refine .same ?_
    rintro _ ⟨⟩
    exact hmismatched

theorem length_coerceArguments (f : Frame) (parameters : List Parameter) (values : List Value) :
    (coerceArguments f parameters values).length = values.length := by
  induction parameters generalizing values with
  | nil => rfl
  | cons p parameters ih =>
    cases values with
    | nil => rfl
    | cons value values => exact congrArg (· + 1) (ih values)

theorem coerceArguments_passedAs (f : Frame) (parameters : List Parameter) {values : List Value}
    {n : Nat} {value : Value} (h : values[n]? = some value) :
    ∃ argument, (coerceArguments f parameters values)[n]? = some argument ∧
      PassedAs f.coerce parameters[n]? value argument := by
  induction parameters generalizing values n with
  | nil => exact ⟨value, h, .same nofun⟩
  | cons p parameters ih =>
    cases values with
    | nil => cases h
    | cons first values =>
      cases n with
      | zero =>
        cases h
        exact ⟨_, rfl, coerceArgument_passedAs f p value⟩
      | succ n => exact ih h

theorem length_argumentItems {callee : MethodRef} {stack : Stack}
    (h : argumentDepth i callee stack ≤ stack.length) :
    (argumentItems i callee stack).length = argumentDepth i callee stack := by
  rw [argumentItems, List.length_reverse, List.length_take, Nat.min_eq_left h]

theorem defaultPop_of_call {c : Code} (h : c.category = .call) : c.defaultPop = .perParameter := by
  revert h
  cases c <;> decide

def Receives (f : Frame) (callee : MethodRef) (s : Simulation) (receiver : Receiver)
    (t : Simulation) : Prop :=
  ∀ arguments d, ∃ opcode fixed, Addressed f callee s receiver.code t opcode fixed ∧
    callInstruction receiver.location (calledName f callee receiver.delegate) arguments d =
      { opcode, arguments := fixed ++ [d], variadic := arguments }

theorem instanceReceiver_receives {callee : MethodRef} (htakes : takesObject callee = true)
    {count : Nat} {receiver : Receiver} (h : instanceReceiver f i count s = .ok receiver t) :
    Receives f callee s receiver t := by
  rw [instanceReceiver, get_bind] at h
  cases hstack : s.stack with
  | nil =>
    rw [hstack] at h
    exact absurd h underflow_fails
  | cons item rest =>
    simp only [hstack] at h
    obtain ⟨_, _, hset, h⟩ := bind_ok h
    cases hset
    intro arguments d
    cases hitem : item.delegate? with
    | some v =>
      simp only [hitem, Option.isSome_some, if_true] at h
      cases h
      exact ⟨_, _, .delegate htakes hstack hitem, rfl⟩
    | none =>
      simp only [hitem, Option.isSome_none, Bool.false_eq_true, if_false] at h
      cases hthis : item.isThis with
      | true =>
        rw [if_pos hthis] at h
        cases h
        exact ⟨_, _, .this htakes hstack hitem hthis, rfl⟩
      | false =>
        rw [if_neg (Bool.eq_false_iff.1 hthis)] at h
        obtain ⟨staged, _, hstage, h⟩ := bind_ok h
        cases h
        exact ⟨_, _, .object htakes hstack hitem hthis (stage_stages hstage), rfl⟩

theorem plainReceiver_run (f : Frame) (callee : MethodRef) (s : Simulation) :
    plainReceiver f callee ((f.program.method? callee).map Prod.snd) s = .ok
      { location := if callsType f callee s.stack then .type (staticLocation callee) else .self }
      { s with
        stack := if callsType f callee s.stack then s.stack else withoutThis s.stack
        warnings := s.warnings ++ unresolvedWarnings f callee } := by
  obtain ⟨stack, _⟩ := s
  rw [callsType, unresolvedWarnings, withoutThis]
  cases f.program.method? callee with
  | none =>
    have hwarn (t : Simulation) :
        warn (f.method.name ++ ": unresolved callee " ++ callee.qualifiedName) t =
          .ok () { t with warnings := t.warnings ++
            [f.method.name ++ ": unresolved callee " ++ callee.qualifiedName] } := rfl
    simp only [plainReceiver, Option.map_none, Option.isNone_none, if_true]
    rw [bind_run (hwarn _), get_bind]
    cases stack with
    | nil => cases Naming.isStaticByName callee.qualifiedName <;> rfl
    | cons item rest =>
      obtain ⟨content, type, isThis, isResult⟩ := item
      cases isThis <;> cases Naming.isStaticByName callee.qualifiedName <;> rfl
  | some found =>
    simp only [plainReceiver, Option.map_some, Option.isNone_some, Bool.false_eq_true, if_false,
      List.append_nil]
    rw [get_bind]
    by_cases hstatic : found.2.isStatic = true
    · simp only [hstatic, if_true, Bool.not_true, Bool.false_and]
      cases stack <;> rfl
    · simp only [Bool.eq_false_iff.2 hstatic, Bool.false_eq_true, if_false, Bool.not_false,
        Bool.true_and]
      cases stack with
      | nil => rfl
      | cons item rest =>
        obtain ⟨content, type, isThis, isResult⟩ := item
        cases isThis <;> rfl

theorem plainReceiver_receives {callee : MethodRef} (htakes : takesObject callee = false)
    {receiver : Receiver}
    (h : plainReceiver f callee ((f.program.method? callee).map Prod.snd) s = .ok receiver t) :
    Receives f callee s receiver t := by
  intro arguments d
  cases (plainReceiver_run f callee s).symm.trans h
  cases htype : callsType f callee s.stack with
  | true => exact ⟨_, _, .type htakes htype, rfl⟩
  | false => exact ⟨_, _, .running htakes htype, rfl⟩

theorem Addressed.length_eq {callee : MethodRef} {lead : List Instruction} {opcode : Opcode}
    {fixed : List Value} (h : Addressed f callee s lead t opcode fixed) : fixed.length = 2 := by
  cases h <;> rfl

theorem Addressed.assigned {callee : MethodRef} {lead : List Instruction} {opcode : Opcode}
    {fixed : List Value} (h : Addressed f callee s lead t opcode fixed) (hs : Sound s) :
    ∀ name ∈ assignedNames lead, ∃ k < t.temporaries, name = temporaryName k := by
  intro name hname
  cases h with
  | object _ hstack _ _ hstages =>
    obtain ⟨rfl, ht⟩ := hstages.assigned (hs _ (hstack ▸ List.mem_cons_self)) hname
    exact ⟨_, ht ▸ Nat.lt_succ_self _, rfl⟩
  | _ => cases hname

/-- Code that calls nothing, or one call among code that calls nothing. -/
def CallsAtMost (P : List Instruction → Instruction → Prop) (code : List Instruction) : Prop :=
  OrdinaryCode code ∨ ∃ front j rest, code = front ++ j :: rest ∧ OrdinaryCode front ∧
    OrdinaryCode rest ∧ j.IsPlain ∧ P front j

section

variable {callee : MethodRef} {s₀ s₁ : Simulation} {receiver : Receiver}
  (hcategory : i.code.category = .call) (hcallee : i.method? = some callee)
  (henough : argumentDepth i callee s₀.stack ≤ s₀.stack.length) (hs : Sound s₀)
  (hreceiver : Receives f callee
    { s₀ with stack := s₀.stack.drop (argumentDepth i callee s₀.stack) } receiver s₁)

theorem isSound_argumentItems (i : Instr) (callee : MethodRef) (hs : Sound s₀) :
    ∀ item ∈ argumentItems i callee s₀.stack, item.isSound = true :=
  fun item hitem => hs item (List.mem_of_mem_take (List.mem_reverse.1 hitem))

include hcategory hcallee henough hs hreceiver

theorem isCallOf_callInstruction {values : List Value}
    (hvalues : StagesAll s₁ (argumentItems i callee s₀.stack) code values t) (d : Value) :
    IsCallOf f i callee s₀ (receiver.code ++ code)
      (callInstruction receiver.location (calledName f callee receiver.delegate)
        (coerceArguments f callee.parameters values) d) := by
  obtain ⟨opcode, fixed, haddressed, hcall⟩ :=
    hreceiver (coerceArguments f callee.parameters values) d
  have hlength : (coerceArguments f callee.parameters values).length =
      (argumentItems i callee s₀.stack).length := by
    rw [length_coerceArguments, hvalues.length_eq]
  have hrest : Sound { s₀ with stack := s₀.stack.drop (argumentDepth i callee s₀.stack) } :=
    fun item hitem => hs item (List.mem_of_mem_drop hitem)
  have hdisjoint := hvalues.disjoint (isSound_argumentItems i callee hs) (haddressed.assigned hrest)
  rw [hcall]
  refine ⟨hcategory, hcallee, henough, ?_, hlength, fun hpop => ?_, receiver.code, s₁, code, values,
    t, ?_, hvalues, hdisjoint, rfl, ?_⟩
  · rw [List.length_append, haddressed.length_eq]
    rfl
  · rw [hlength, length_argumentItems henough, argumentDepth, hpop, defaultPop_of_call hcategory]
    rfl
  · rw [List.take_left' haddressed.length_eq]
    exact haddressed
  · intro n value hvalue
    exact coerceArguments_passedAs f callee.parameters hvalue

theorem plainCall_isCallOf (hquiet : Quiet s₁)
    (h : plainCall f callee (argumentItems i callee s₀.stack) receiver s₁ = .ok code t) :
    CallsAtMost (fun front => IsCallOf f i callee s₀ (receiver.code ++ front)) code := by
  have hsound := isSound_argumentItems i callee hs
  obtain ⟨⟨staging, values⟩, t', hstage, hproduce⟩ := bind_ok h
  obtain ⟨hquiet', hordinary⟩ := (runs_stageAll hsound).ok hquiet hstage
  obtain ⟨-, d, rest, rfl, hrest⟩ :=
    (runs_produce (P := fun _ offset => offset = none) (fun _ _ h => h) _ _ _).ok hquiet'.clear
      hproduce
  refine .inr ⟨staging, _, rest, rfl, hordinary, hrest, isPlain_callInstruction _ _ _ d, ?_⟩
  exact isCallOf_callInstruction hcategory hcallee henough hs hreceiver
    (stageAll_stagesAll hsound hstage) d

theorem callBody_isCallOf (hquiet : Quiet s₁) {declaration : Option MethodDecl}
    (h : callBody f callee declaration (argumentItems i callee s₀.stack) receiver s₁ =
      .ok code t) :
    CallsAtMost (fun front => IsCallOf f i callee s₀ (receiver.code ++ front)) code := by
  have hsound := isSound_argumentItems i callee hs
  rw [callBody] at h
  split at h
  · cases h
    exact .inl .nil
  split at h
  · exact .inl ((runs_concat hsound).ok hquiet.clear h).2
  split at h
  · exact .inl ((runs_equality hsound false).ok hquiet h).2
  split at h
  · exact .inl ((runs_equality hsound true).ok hquiet h).2
  split at h
  · exact .inl ((runs_property callee hsound receiver.location).ok hquiet h).2
  · exact plainCall_isCallOf hcategory hcallee henough hs hreceiver hquiet h

end

theorem CallsAtMost.after {P : List Instruction → Instruction → Prop} {first : List Instruction}
    (h : CallsAtMost (fun front => P (first ++ front)) code) (hfirst : OrdinaryCode first) :
    CallsAtMost P (first ++ code) := by
  obtain hordinary | ⟨front, j, rest, rfl, hfront, hrest, hplain, hcall⟩ := h
  · exact .inl (hfirst.append hordinary)
  · exact .inr ⟨first ++ front, j, rest, (List.append_assoc ..).symm, hfirst.append hfront, hrest,
      hplain, hcall⟩

theorem call_isCallOf (hs : Quiet s) (hcategory : i.code.category = .call)
    (h : call f i s = .ok code t) : ∃ callee, CallsAtMost (IsCallOf f i callee s) code := by
  obtain ⟨callee, s₀, hneed, hcall⟩ := bind_ok h
  obtain ⟨hcallee, rfl⟩ := need_ok hneed
  obtain ⟨_, _, hget, hcall⟩ := bind_ok hcall
  cases hget
  obtain ⟨items, s₁, hpop, hcall⟩ := bind_ok hcall
  obtain ⟨hquiet, _⟩ := (runs_popMany _).ok hs hpop
  obtain ⟨henough, rfl, rfl⟩ := popMany_ok hpop
  have hbody {s₂ : Simulation} {receiver : Receiver}
      (hreceiver : Receives f callee
        { s₀ with stack := s₀.stack.drop (argumentDepth i callee s₀.stack) } receiver s₂)
      (hready : Quiet s₂ ∧ OrdinaryCode receiver.code)
      (h : (callBody f callee ((f.program.method? callee).map Prod.snd)
        (argumentItems i callee s₀.stack) receiver >>= fun code => pure (receiver.code ++ code)) s₂ =
          .ok code t) :
      CallsAtMost (IsCallOf f i callee s₀) code := by
    obtain ⟨body, _, hbody, hpure⟩ := bind_ok h
    cases hpure
    exact (callBody_isCallOf hcategory hcallee henough hs.sound hreceiver hready.1 hbody).after
      hready.2
  refine ⟨callee, ?_⟩
  cases htakes : takesObject callee with
  | true =>
    rw [takesObject] at htakes
    simp only [htakes, if_true] at hcall
    obtain ⟨receiver, s₂, hreceiver, hcall⟩ := bind_ok hcall
    exact hbody (instanceReceiver_receives htakes hreceiver)
      ((runs_instanceReceiver _).ok hquiet hreceiver) hcall
  | false =>
    rw [takesObject] at htakes
    simp only [htakes, Bool.false_eq_true, if_false] at hcall
    obtain ⟨receiver, s₂, hreceiver, hcall⟩ := bind_ok hcall
    exact hbody (plainReceiver_receives htakes hreceiver)
      ((runs_plainReceiver callee _).ok hquiet hreceiver) hcall

/-- Only managed calls emit calls, at most one each. -/
theorem step_isCallOf (hs : Quiet s) (h : step f i s = .ok code t) {n : Nat} {j : Instruction}
    (hj : code[n]? = some j) (hcall : j.opcode.isCall = true) :
    OrdinaryCode (code.take n) ∧ j.IsPlain ∧
      ∃ callee, IsCallOf f i callee s (code.take n) j := by
  have hordinary {part : List Instruction} (hpart : OrdinaryCode part) : j ∉ part := by
    intro hmem
    rw [(hpart j hmem).call] at hcall
    cases hcall
  by_cases hcategory : i.code.category = .call
  · simp only [step, hcategory] at h
    obtain ⟨callee, hcode | ⟨front, j', rest, rfl, hfront, hrest, hplain, hisCall⟩⟩ :=
      call_isCallOf hs hcategory h
    · exact absurd (List.mem_of_getElem? hj) (hordinary hcode)
    obtain hn | rfl | hn := Nat.lt_trichotomy n front.length
    · rw [List.getElem?_append_left hn] at hj
      exact absurd (List.mem_of_getElem? hj) (hordinary hfront)
    · rw [List.getElem?_append_right (Nat.le_refl _), Nat.sub_self] at hj
      cases hj
      rw [List.take_left]
      exact ⟨hfront, hplain, callee, hisCall⟩
    · obtain ⟨m, hm⟩ := Nat.exists_eq_succ_of_ne_zero (Nat.sub_ne_zero_of_lt hn)
      rw [List.getElem?_append_right (Nat.le_of_lt hn), hm, List.getElem?_cons_succ] at hj
      exact absurd (List.mem_of_getElem? hj) (hordinary hrest)
  · have hnone := ((runs_step_of_ne_call hcategory).ok hs h).2 j (List.mem_of_getElem? hj)
    rw [hnone.2] at hcall
    cases hcall

end Lower

end Lowering

end PapyrusBackend
