import PapyrusBackend.Lowering.Call
import PapyrusBackend.Proofs.Lowering.Deferred

namespace PapyrusBackend.Lowering

open Source Lower

structure Encounter where
  frame : Frame
  instr : Instr
  state : Simulation

namespace Encounter

def equality? (e : Encounter) : Option Bool :=
  if e.instr.code.category = .call then
    e.instr.method?.bind fun callee =>
      if callee.isConstructorName ||
          ((e.frame.program.method? callee).map Prod.snd).any MethodDecl.isConstructor then none
      else if callee.name = "op_Equality" then some false
      else if callee.name = "op_Inequality" then some true
      else none
  else none

def IsOmitted (e : Encounter) : Prop :=
  e.state.skipNext = true ∨ ∃ fault t, step e.frame e.instr e.state = .error fault t

end Encounter

/-- The code of an instruction shows what happens to comparisons. Comparisons, negations and jumps of
the instruction itself are told from those that are made of items on the stack. -/
inductive Shows (e : Encounter) : List Event → List Instruction → Prop
  | omitted (h : e.IsOmitted) : Shows e [] []
  | plain {events : List Event} {code : List Instruction} (hcall : e.equality? = none)
      (h : Reads events code) : Shows e events code
  | negated {events : List Event} {front back : List Instruction} (hcode : e.instr.code = .not)
      (d v : Value) (hfront : Reads events front) (hback : NeutralCode back) :
      Shows e events (front ++ { opcode := .not, arguments := [d, v] } :: back)
  | compared {events : List Event} {front back : List Instruction} {opcode : Opcode}
      (hcode : comparisonOpcode? e.instr.code = some opcode) (d lhs rhs : Value)
      (hfront : Reads events front) (hback : NeutralCode back) :
      Shows e events (front ++ { opcode, arguments := [d, lhs, rhs] } :: back)
  | jump {events : List Event} {front : List Instruction} (hcode : e.instr.code = .br)
      (target : Option Target) (hfront : Reads events front) :
      Shows e events (front ++ [.jump target])
  | comparedJump {events events' : List Event} {front carried : List Instruction} {opcode : Opcode}
      {expected : Bool} (hcode : branchOpcode? e.instr.code = some (opcode, expected))
      (v lhs rhs : Value) (target : Option Target) (hfront : Reads events front)
      (hcarried : Reads events' carried) :
      Shows e (events ++ events')
        (front ++ { opcode, arguments := [v, lhs, rhs] } ::
          (carried ++ [.jumpIf expected v target]))
  | tested {events : List Event} {front : List Instruction} {expected : Bool}
      (hcode : e.instr.code = if expected then .brtrue else .brfalse) (v : Value)
      (target : Option Target) (hfront : Reads events front) :
      Shows e events (front ++ [.jumpIf expected v target])
  /-- a branch on a comparison is turned round instead of negating the comparison -/
  | turned {events : List Event} {carried : List Instruction} {expected : Bool} {item : Item}
      {opcode : Opcode} {lhs rhs : Value}
      (hcode : e.instr.code = if expected then .brtrue else .brfalse)
      (hitem : item.content = .comparison opcode lhs rhs) (inverted : Bool) (v : Value)
      (target : Option Target) (hcarried : Reads events carried) :
      Shows e (.made item inverted :: events)
        ({ opcode, arguments := [v, lhs, rhs] } ::
          (carried ++ [.jumpIf (expected ^^ inverted) v target]))
  | left {events events' : List Event} {front code : List Instruction} {inequality : Bool}
      (hcode : e.equality? = some inequality) (lhs rhs : Value) (hfront : Reads events front)
      (h : Reads events' code) :
      Shows e
        (events ++ .called inequality ::
          (events' ++ [.left { content := .comparison .cmpEq lhs rhs, type := "Bool" }]))
        (front ++ code)
  | stored {events events' : List Event} {front code back : List Instruction} {inequality : Bool}
      (hcode : e.equality? = some inequality) (d lhs rhs : Value) (hfront : Reads events front)
      (h : Reads events' code) (hback : NeutralCode back) :
      Shows e (events ++ .called inequality :: (events' ++ [.stored]))
        (front ++ (code ++ { opcode := .cmpEq, arguments := [d, lhs, rhs] } ::
          (if inequality then negation d :: back else back)))
  | copied {item : Item} (hcode : e.instr.code = .dup) (hstack : e.state.stack.head? = some item)
      (hitem : item.isComparison = true) : Shows e [.copied item] []

def Shown (past : List Event) (count : Item → Nat) (e : Encounter) (code : List Instruction)
    (t : Simulation) : Prop :=
  ∃ events, Shows e events code ∧ Stock past count events [] t

section

variable {past : List Event} {count : Item → Nat} {e : Encounter} {hand : List Item}
  {code : List Instruction} {t : Simulation}

theorem Spelt.shown (h : Spelt past count [] code hand t) (hcall : e.equality? = none) :
    Shown past count e code t := by
  obtain ⟨events, hreads, hstock⟩ := h
  exact ⟨events, .plain hcall hreads, hstock.dropAll⟩

theorem Stock.shown (h : Stock past count [] [] t) (hcall : e.equality? = none) :
    Shown past count e [] t :=
  h.spelt.shown hcall

/-- The top of the stack is doubled. -/
theorem Stock.dup (h : Stock past count [] [] e.state) (hcall : e.equality? = none)
    (hcode : e.instr.code = .dup) :
    Shown past count e [] { e.state with stack := e.state.stack.take 1 ++ e.state.stack } := by
  by_cases htop : ∃ item, e.state.stack.head? = some item ∧ item.isComparison = true
  · obtain ⟨item, hstack, hitem⟩ := htop
    refine ⟨[.copied item], .copied hcode hstack hitem, h.concat (.copied item) rfl rfl ?_ ?_⟩
    · rw [List.take_one, hstack]
      rfl
    · rintro _ ⟨⟩
      exact h.proper item (List.mem_of_head? hstack)
  · have hnone : ∀ item, item.isComparison = true → (e.state.stack.take 1).count item = 0 := by
      intro item hitem
      rw [List.count_eq_zero, List.take_one, Option.mem_toList]
      exact fun hmem => htop ⟨item, hmem, hitem⟩
    apply Stock.shown _ hcall
    apply h.pass
    · rfl
    · intro item hitem
      apply Nat.le_of_eq
      rw [List.count_append, hnone item hitem, Nat.zero_add]

end

namespace Lower

variable {past : List Event} {count : Item → Nat} {floor : Simulation → Prop} {f : Frame}
  {i : Instr} {e : Encounter} {hand : List Item} {code : List Instruction}

theorem triple_shown {type : String} {front : List Instruction} {make : Value → Instruction}
    (hmake : ∀ events d rest, Reads events front → NeutralCode rest →
      Shows e events (front ++ make d :: rest)) :
    Triple floor (Spelt past count [] front hand) (produce f type front make)
      (Shown past count e) := by
  apply (triple_produce type front make).mono fun _ => id
  rintro _ t ⟨⟨events, hreads, hstock⟩, d, rest, rfl, hrest⟩
  exact ⟨events, hmake events d rest hreads hrest, hstock.dropAll⟩

theorem isNeutral_binary {c : Code} {float : Bool} {opcode : Opcode}
    (h : binaryOpcode? c float = some opcode) (d lhs rhs : Value) :
    Instruction.isNeutral { opcode, arguments := [d, lhs, rhs] } = true := by
  cases c <;> cases float <;> cases h <;> rfl

theorem triple_require (n : Nat) {I : Simulation → Prop}
    (hI : ∀ s, I s → Stock past count [] [] s) :
    Triple (Stock past count [] []) I (require f i n) fun _ t => I t := by
  apply Triple.get
  intro s _
  split
  · exact fun t ht _ => hI t ht
  · exact .pure fun _ => id

section

variable (hcall : e.equality? = none)

include hcall

theorem triple_neutral {type : String} {make : Value → Instruction}
    (hmake : ∀ d, (make d).isNeutral = true) :
    Triple floor (Spelt past count [] code hand) (produce f type code make)
      (Shown past count e) :=
  triple_shown fun _ d _ hreads hrest =>
    .plain hcall (hreads.append_neutral (.cons (hmake d) hrest))

/-- An instruction at the end that has no result. -/
theorem triple_close {front : List Instruction} {last : Instruction}
    (hlast : last.isNeutral = true) :
    Triple floor (Spelt past count [] front hand) (pure (front ++ [last]))
      (Shown past count e) := by
  apply Triple.pure
  intro s hs
  exact (hs.append_neutral (.cons hlast .nil)).shown hcall

theorem triple_unary :
    Triple (Stock past count [] []) (Stock past count [] []) (unary e.frame e.instr)
      (Shown past count e) := by
  by_cases hnot : e.instr.code = .not
  · simp only [unary, unaryOpcode, if_pos hnot]
    apply triple_popOperand.bind
    intro item
    apply triple_stage.bind
    intro staged
    exact triple_shown fun events d rest hreads hrest => .negated hnot d _ hreads hrest
  · simp only [unary, unaryOpcode, if_neg hnot]
    apply triple_popOperand.bind
    intro item
    apply triple_stage.bind
    intro staged
    apply triple_neutral hcall
    intro d
    cases item.isFloat <;> rfl

theorem triple_binary :
    Triple (Stock past count [] []) (Stock past count [] []) (binary e.frame e.instr)
      (Shown past count e) := by
  apply triple_popPair.bind
  intro pair
  dsimp only
  split
  · exact .throw rfl
  · next opcode hopcode =>
    apply triple_stagePair.bind
    intro staged
    exact triple_neutral hcall fun d => isNeutral_binary hopcode d _ _

theorem triple_arithmetic :
    Triple (Stock past count [] []) (Stock past count [] []) (arithmetic e.frame e.instr)
      (Shown past count e) := by
  rw [arithmetic]
  split
  · exact triple_unary hcall
  · exact triple_unary hcall
  · exact triple_binary hcall

theorem triple_cast (type : String) :
    Triple (Stock past count [] []) (Stock past count [] []) (cast e.frame e.instr type)
      (Shown past count e) := by
  apply triple_popOperand.bind
  intro item
  have hvalue (v : Value) : Triple (Stock past count [] []) (Spelt past count [] [] [item])
      (do push (.ofValue v); return []) (Shown past count e) :=
    (triple_push rfl).bind fun _ => .pure fun _ ht => ht.shown hcall
  have hkeep : Triple (Stock past count [] []) (Spelt past count [] [] [item])
      (do push item; return []) (Shown past count e) :=
    triple_pushBack.bind fun _ => .pure fun _ ht => ht.shown hcall
  dsimp only
  split
  · exact hvalue _
  · exact hvalue _
  · split
    · exact hkeep
    · apply triple_stage.bind
      intro staged
      exact triple_neutral hcall fun d => rfl

theorem triple_shuffle :
    Triple (Stock past count [] []) (fun s => Stock past count [] [] s ∧ s = e.state)
      (shuffle e.frame e.instr) (Shown past count e) := by
  have hcast (type : String) :
      Triple (Stock past count [] []) (fun s => Stock past count [] [] s ∧ s = e.state)
        (cast e.frame e.instr type) (Shown past count e) :=
    (triple_cast hcall type).mono (fun _ => And.left) fun _ _ => id
  rw [shuffle]
  split
  · next hcode =>
    apply (triple_require 1 fun _ => And.left).bind
    intro _
    apply Triple.bind (Q := fun _ t => Shown past count e [] t)
    · apply Triple.modify
      rintro s ⟨hs, rfl⟩
      exact hs.dup hcall hcode
    · exact fun _ => .pure fun _ => id
  · apply Triple.mono _ (fun _ => And.left) fun _ _ => id
    exact triple_popOperand.bind fun item => .pure fun _ ht => ht.shown hcall
  · apply (triple_require 1 fun _ => And.left).bind
    exact fun _ => .pure fun _ ht => ht.1.shown hcall
  · exact hcast "Float"
  · exact hcast "Float"
  · exact hcast "Int"
  · exact .throw rfl

theorem triple_giveBack :
    Triple (Stock past count [] []) (Stock past count [] []) (giveBack e.frame e.instr)
      (Shown past count e) := by
  rw [giveBack]
  split
  · have hclose : Triple (Stock past count [] []) (Spelt past count [] [] [])
        (pure ([] ++ [{ opcode := .ret, arguments := [.none] }])) (Shown past count e) :=
      triple_close hcall rfl
    exact hclose.mono (fun _ => Stock.spelt) fun _ _ => id
  · apply triple_popOperand.bind
    intro item
    apply triple_stage.bind
    intro staged
    exact triple_close hcall rfl

theorem triple_loadField :
    Triple (Stock past count [] []) (Stock past count [] []) (loadField e.frame e.instr)
      (Shown past count e) := by
  apply triple_needed
  intro field _
  apply triple_popOperand.bind
  intro holder
  dsimp only
  split
  · split
    · exact (triple_push rfl).bind fun _ => .pure fun _ ht => ht.shown hcall
    · exact .throw rfl
  · apply (triple_fieldVariable field).bind
    intro v
    exact (triple_push rfl).bind fun _ => .pure fun _ ht => ht.shown hcall

theorem triple_loadElement :
    Triple (Stock past count [] []) (Stock past count [] []) (loadElement e.frame e.instr)
      (Shown past count e) := by
  apply triple_popPair.bind
  intro pair
  apply triple_stagePair.bind
  intro staged
  exact triple_neutral hcall fun d => rfl

theorem triple_loadLength :
    Triple (Stock past count [] []) (Stock past count [] []) (loadLength e.frame e.instr)
      (Shown past count e) := by
  apply triple_popOperand.bind
  intro item
  apply triple_stage.bind
  intro staged
  exact triple_neutral hcall fun d => rfl

theorem triple_newArray :
    Triple (Stock past count [] []) (Stock past count [] []) (newArray e.frame e.instr)
      (Shown past count e) := by
  apply triple_needed
  intro element _
  apply triple_popOperand.bind
  intro item
  apply triple_stage.bind
  intro staged
  exact triple_neutral hcall fun d => rfl

/-- An item that is no comparison is pushed. -/
theorem triple_pushed {item : Item} (hitem : item.isComparison = false) :
    Triple floor (Stock past count [] hand) (do push item; return [])
      (Shown past count e) := by
  apply Triple.mono _ (fun _ => Stock.spelt) fun _ _ => id
  exact (triple_push hitem).bind fun _ => .pure fun _ ht => ht.shown hcall

theorem triple_newObject :
    Triple (Stock past count [] []) (Stock past count [] []) (newObject e.frame e.instr)
      (Shown past count e) := by
  apply triple_needed
  intro ctor _
  apply Triple.get
  intro s _
  apply (triple_popMany _).bind
  intro items
  dsimp only
  split
  · exact triple_pushed hcall rfl
  · split
    · split
      · apply Triple.mono _ (fun _ => Stock.spelt) fun _ _ => id
        exact triple_neutral hcall fun d => rfl
      · exact (triple_warn blind_stock _).bind fun _ => triple_pushed hcall rfl
    · exact triple_pushed hcall rfl

theorem triple_load :
    Triple (Stock past count [] []) (Stock past count [] []) (load e.frame e.instr)
      (Shown past count e) := by
  rw [load]
  split
  · apply triple_needed
    intro index _
    apply Triple.bind_and (Q := fun _ t => Stock past count [] [] t) (triple_argument index)
    rintro item ⟨v, hcontent⟩
    apply triple_pushed hcall
    rw [Item.isComparison, hcontent]
  · apply triple_needed
    intro index _
    exact (triple_getLocal index).bind fun _ => triple_pushed hcall rfl
  · exact triple_pushed hcall rfl
  · exact triple_pushed hcall rfl
  · exact triple_pushed hcall rfl
  · exact triple_pushed hcall rfl
  · exact triple_pushed hcall rfl
  · exact triple_loadField hcall
  · exact triple_loadField hcall
  · apply triple_needed
    intro field _
    exact (triple_fieldVariable field).bind fun _ => triple_pushed hcall rfl
  · apply triple_needed
    exact fun _ _ => triple_pushed hcall rfl
  · exact triple_loadElement hcall
  · exact triple_loadLength hcall
  · exact triple_newArray hcall
  · exact triple_newObject hcall
  · exact .throw rfl

theorem triple_assigned {v : Variable} {item : Item} :
    Triple floor (Spelt past count [] [] [item]) (assign f v item)
      (Shown past count e) :=
  triple_assign.mono (fun _ => id) fun _ _ ht => ht.shown hcall

theorem triple_storeLocal :
    Triple (Stock past count [] []) (Stock past count [] []) (storeLocal e.frame e.instr)
      (Shown past count e) := by
  apply triple_needed
  intro index _
  apply triple_popOperand.bind
  intro item
  split
  · exact (triple_bindLocal blind_spelt index _).bind fun _ => .pure fun _ ht => ht.shown hcall
  · apply (triple_getLocal index).bind
    intro v
    split
    · exact .pure fun _ ht => ht.shown hcall
    · exact triple_assigned hcall

theorem triple_storeArgument :
    Triple (Stock past count [] []) (Stock past count [] []) (storeArgument e.frame e.instr)
      (Shown past count e) := by
  apply triple_needed
  intro index _
  apply triple_popOperand.bind
  intro item
  exact (triple_parameter index).bind fun v => triple_assigned hcall

theorem triple_storeIn (field : FieldRef) {item : Item} :
    Triple floor (Spelt past count [] [] [item]) (storeIn f field item)
      (Shown past count e) := by
  rw [storeIn]
  split
  · exact (triple_bindField blind_spelt field _).bind fun _ => .pure fun _ ht => ht.shown hcall
  · exact (triple_fieldVariable field).bind fun v => triple_assigned hcall

theorem triple_storeField :
    Triple (Stock past count [] []) (Stock past count [] []) (storeField e.frame e.instr)
      (Shown past count e) := by
  apply triple_needed
  intro field _
  apply triple_popPair.bind
  intro pair
  dsimp only
  split
  · apply triple_stagePair.bind
    intro staged
    exact triple_close hcall rfl
  · apply Triple.mono (triple_storeIn hcall field) _ fun _ _ => id
    exact fun s hs => hs.mono fun _ => Stock.drop

theorem triple_storeElement :
    Triple (Stock past count [] []) (Stock past count [] []) (storeElement e.frame e.instr)
      (Shown past count e) := by
  apply triple_popTriple.bind
  intro operands
  apply triple_stage.bind
  intro array
  apply triple_stage.bind
  intro index
  apply triple_stage.bind
  intro item
  exact triple_close hcall rfl

theorem triple_store :
    Triple (Stock past count [] []) (Stock past count [] []) (store e.frame e.instr)
      (Shown past count e) := by
  rw [store]
  split
  · exact triple_storeLocal hcall
  · exact triple_storeArgument hcall
  · apply triple_needed
    intro field _
    apply triple_popOperand.bind
    exact fun item => triple_storeIn hcall field
  · exact triple_storeField hcall
  · exact triple_storeElement hcall
  · exact .throw rfl

end

theorem triple_conditional :
    Triple (Stock past count [] []) (Stock past count [] []) (conditional e.frame e.instr)
      (Shown past count e) := by
  rw [conditional]
  split
  · exact .throw rfl
  · next opcode hopcode =>
    apply triple_popPair.bind
    intro pair
    apply triple_stagePair.bind
    intro staged
    exact triple_shown fun events d rest hreads hrest => .compared hopcode d _ _ hreads hrest

/-- Items are carried over behind what has happened already. -/
theorem triple_carry {base : List Event} (offset : UInt32) (keep : Bool) :
    Triple floor (Stock past count base hand) (spill f offset keep) fun carried t =>
      Spelt past count base carried hand t :=
  (triple_spill offset keep).mono (fun _ => Stock.spelt) fun _ _ => id

theorem triple_branchOnTruth (offset : UInt32) {expected : Bool}
    (hcode : e.instr.code = if expected then .brtrue else .brfalse) :
    Triple (Stock past count [] []) (Stock past count [] [])
      (branchOnTruth e.frame e.instr offset expected) (Shown past count e) := by
  apply triple_popOperand.bind
  intro item
  cases hitem : item.isComparison with
  | false =>
    have hcondition : stageCondition item expected = do return (← stage item, expected) := by
      rw [stageCondition]
      split
      · next hcontent =>
        rw [Item.isComparison, hcontent] at hitem
        cases hitem
      · rfl
    rw [hcondition, bind_assoc]
    apply triple_stage.bind
    intro staged
    apply (triple_spill offset true).bind
    intro carried
    apply Triple.pure
    rintro s ⟨events, hreads, hs⟩
    exact ⟨events, .tested hcode _ _ hreads, hs⟩
  | true =>
    obtain ⟨opcode, lhs, rhs, hcontent⟩ := Item.exists_comparison hitem
    simp only [stageCondition, hcontent, bind_assoc]
    apply Triple.spelt
    intro events hreads
    cases hreads
    apply (triple_materialize blind_stock opcode lhs rhs).bind_and
    rintro made ⟨v, rfl⟩
    apply (triple_takeInverted hitem).bind
    intro inverted
    apply (triple_carry offset true).bind
    intro carried
    apply Triple.pure
    rintro s ⟨events, hcarried, hs⟩
    exact ⟨_, .turned hcode hcontent inverted v _ hcarried, hs⟩

theorem triple_branchOnComparison (offset : UInt32) :
    Triple (Stock past count [] []) (Stock past count [] [])
      (branchOnComparison e.frame e.instr offset) (Shown past count e) := by
  rw [branchOnComparison]
  split
  · exact .throw rfl
  · next opcode expected hopcode =>
    apply triple_popPair.bind
    intro pair
    apply triple_stagePair.bind
    intro staged
    apply Triple.spelt
    intro events hreads
    apply (triple_materialize blind_stock opcode _ _).bind_and
    rintro made ⟨v, rfl⟩
    apply (triple_carry offset true).bind
    intro carried
    apply Triple.pure
    rintro s ⟨events', hcarried, hs⟩
    refine ⟨events ++ events', ?_, hs⟩
    rw [List.append_assoc, List.append_assoc]
    exact .comparedJump hopcode v _ _ _ hreads hcarried

theorem triple_branch :
    Triple (Stock past count [] []) (Stock past count [] []) (branch e.frame e.instr)
      (Shown past count e) := by
  apply triple_needed
  intro offset _
  split
  · next hcode =>
    apply (triple_carry offset false).bind
    intro carried
    apply Triple.pure
    rintro s ⟨events, hcarried, hs⟩
    exact ⟨events, .jump hcode _ hcarried, hs⟩
  · next hcode => exact triple_branchOnTruth offset hcode
  · next hcode => exact triple_branchOnTruth offset hcode
  · exact triple_branchOnComparison offset

theorem triple_joinTexts {I : Simulation → Prop} (hI : Blind I) (destination first : Value)
    (values : List Value) :
    Triple floor I (joinTexts destination first values) fun code t => NeutralCode code ∧ I t := by
  induction values generalizing first with
  | nil => exact .pure fun _ hs => ⟨.nil, hs⟩
  | cons second rest ih =>
    cases rest with
    | nil => exact .pure fun _ hs => ⟨.cons rfl .nil, hs⟩
    | cons third rest =>
      apply (triple_temporary hI "String").bind
      intro v
      apply (ih v.value).bind_and
      intro code hcode
      exact .pure fun _ hs => ⟨.cons rfl hcode, hs⟩

theorem triple_stageItems {items : List Item} :
    Triple floor (Spelt past count [] code items) (stageAll items) fun staged t =>
      Spelt past count [] (code ++ staged.1) [] t := by
  have hall : Triple floor (Spelt past count [] code (items ++ [])) (stageAll items)
      fun staged t => Spelt past count [] (code ++ staged.1) [] t := triple_stageAll
  rwa [List.append_nil] at hall

theorem triple_concat {items : List Item} :
    Triple floor (Spelt past count [] code items) (concat f items) fun emitted t =>
      Spelt past count [] (code ++ emitted) [] t := by
  apply (triple_destination "String").bind_and
  intro d hd
  apply triple_stageItems.bind
  intro staged
  have hrest {joined : List Instruction} (hjoined : NeutralCode joined) :
      Triple floor (Spelt past count [] (code ++ staged.1) [])
        (do return staged.1 ++ joined ++ (← finish d)) fun emitted t =>
          Spelt past count [] (code ++ emitted) [] t := by
    apply (triple_finish hd).bind_and
    intro rest hrest
    apply Triple.pure
    intro s hs
    rw [List.append_assoc, ← List.append_assoc]
    exact hs.append_neutral (hjoined.append hrest)
  dsimp only
  split
  · exact hrest (.cons rfl .nil)
  · exact hrest (.cons rfl .nil)
  · exact (triple_joinTexts blind_spelt _ _ _).bind_and fun joined hjoined => hrest hjoined

/-- The comparison of an equality operator is left on the stack. -/
theorem triple_leave {base : List Event} (lhs rhs : Value) :
    Triple floor (Stock past count base hand)
      (do
        modify fun s => { s with skipTo := f.next?.map Instr.offset }
        push { content := .comparison .cmpEq lhs rhs, type := "Bool" }
        return code)
      fun emitted t => emitted = code ∧ Stock past count
        (base ++ [.left { content := .comparison .cmpEq lhs rhs, type := "Bool" }]) hand t := by
  apply Triple.bind (Q := fun _ t => Stock past count base hand t)
  · exact .modify fun s hs => hs.pass rfl fun _ _ => Nat.le_refl _
  · intro _
    apply Triple.bind (Q := fun _ t => Stock past count
      (base ++ [.left { content := .comparison .cmpEq lhs rhs, type := "Bool" }]) hand t)
    · apply Triple.modify
      intro s hs
      apply hs.concat _ rfl rfl rfl
      rintro _ ⟨⟩ _
      rfl
    · exact fun _ => .pure fun _ hs => ⟨rfl, hs⟩

/-- The comparison of an equality operator is made at once, for the store that follows. -/
theorem triple_storeAtOnce {base : List Event} (lhs rhs : Value) (inequality : Bool) :
    Triple floor (Stock past count base hand)
      (do
        let d ← destination f "Bool"
        modify fun s => { s with inverted := false }
        let rest ← finish d
        return code ++ { opcode := .cmpEq, arguments := [d.value, lhs, rhs] } ::
          (if inequality then negation d.value :: rest else rest))
      fun emitted t =>
        (∃ d back, NeutralCode back ∧ emitted = code ++
          { opcode := .cmpEq, arguments := [d, lhs, rhs] } ::
            (if inequality then negation d :: back else back)) ∧
        Stock past count (base ++ [.stored]) hand t := by
  have hdestination : Triple floor (Stock past count base hand) (destination f "Bool") fun d t =>
      NeutralCode d.before ∧ Stock past count base hand t := by
    apply (triple_destination "Bool").mono fun _ => Stock.spelt
    exact fun d t ht => ⟨ht.1, ht.2.stock⟩
  apply hdestination.bind_and
  intro d hd
  apply Triple.bind (Q := fun _ t => Spelt past count (base ++ [.stored]) [] hand t)
  · apply Triple.modify
    intro s hs
    apply Stock.spelt
    exact hs.concat .stored rfl rfl rfl fun item hitem => absurd hitem (Option.not_mem_none item)
  · intro _
    apply (triple_finish hd).bind_and
    intro rest hrest
    exact .pure fun _ ht => ⟨⟨d.value, rest, hrest, rfl⟩, ht.stock⟩

theorem triple_equality {front : List Instruction} {items : List Item} {inequality : Bool}
    (hcode : e.equality? = some inequality) :
    Triple floor (Spelt past count [] front items) (equality f items inequality) fun code t =>
      Shown past count e (front ++ code) t := by
  apply Triple.spelt
  intro events hreads
  simp only [equality]
  split
  · next a b =>
    apply Triple.bind (Q := fun _ t =>
      Spelt past count (events ++ [.called inequality]) [] [a, b] t)
    · apply Triple.modify
      intro s hs
      apply Stock.spelt
      exact hs.concat (.called inequality) rfl rfl rfl fun item hitem =>
        absurd hitem (Option.not_mem_none item)
    · intro _
      -- operands that are comparisons take the flag, although it is meant for the result
      apply triple_stagePair.bind
      intro staged
      apply Triple.spelt
      intro events' hstaged
      have hevents (last : Event) : events ++ [.called inequality] ++ events' ++ [last] =
          events ++ .called inequality :: (events' ++ [last]) := by
        simp only [List.append_assoc, List.cons_append, List.nil_append]
      have hpending : Triple floor
          (Stock past count (events ++ [.called inequality] ++ events') [])
          (do
            modify fun s => { s with skipTo := f.next?.map Instr.offset }
            push { content := .comparison .cmpEq staged.2.1 staged.2.2, type := "Bool" }
            return staged.1) fun code t => Shown past count e (front ++ code) t := by
        apply (triple_leave _ _).mono fun _ => id
        rintro _ t ⟨rfl, ht⟩
        rw [hevents] at ht
        exact ⟨_, .left hcode staged.2.1 staged.2.2 hreads hstaged, ht⟩
      split
      · exact hpending
      · split
        · apply (triple_storeAtOnce _ _ inequality).mono fun _ => id
          rintro _ t ⟨⟨d, back, hback, rfl⟩, ht⟩
          rw [hevents] at ht
          exact ⟨_, .stored hcode d _ _ hreads hstaged hback, ht⟩
        · exact hpending
  · exact .throw rfl

/-- A result behind code that stands in front already. -/
theorem triple_behind (hcall : e.equality? = none) {front : List Instruction} {type : String}
    {make : Value → Instruction} (hmake : ∀ d, (make d).isNeutral = true) :
    Triple floor (Spelt past count [] (front ++ code) hand) (produce f type code make)
      fun emitted t => Shown past count e (front ++ emitted) t := by
  apply (triple_produce type code make).mono fun _ => id
  rintro _ t ⟨ht, d, rest, rfl, hrest⟩
  rw [← List.append_assoc]
  exact (ht.append_neutral (.cons (hmake d) hrest)).shown hcall

theorem triple_property (hcall : e.equality? = none) (callee : MethodRef) (location : Location)
    {front : List Instruction} {items : List Item} :
    Triple floor (Spelt past count [] front items) (property f callee items location)
      fun code t => Shown past count e (front ++ code) t := by
  have hname : Triple floor (Spelt past count [] front items) (propertyName f callee location)
      fun _ t => Spelt past count [] front items t := by
    simp only [propertyName]
    split
    · split
      · exact .pure fun _ => id
      · exact .throw rfl
    · exact .pure fun _ => id
  rw [property]
  split
  · exact .throw rfl
  · apply hname.bind
    intro name
    split
    · exact (triple_behind hcall fun d => rfl).mono (fun _ => Spelt.append_nil) fun _ _ => id
    · cases items with
      | nil => exact .throw rfl
      | cons item items =>
        apply triple_stage.bind
        intro staged
        apply Triple.pure
        intro s hs
        rw [← List.append_assoc]
        exact (hs.append_neutral (.cons rfl .nil)).shown hcall

theorem triple_plainCall (hcall : e.equality? = none) (callee : MethodRef) (receiver : Receiver)
    {front : List Instruction} {items : List Item} :
    Triple floor (Spelt past count [] front items) (plainCall f callee items receiver)
      fun code t => Shown past count e (front ++ code) t := by
  apply triple_stageItems.bind
  intro staged
  apply triple_behind hcall
  intro d
  cases receiver.location <;> rfl

theorem equality?_eq {callee : MethodRef} (hcategory : e.instr.code.category = .call)
    (hmethod : e.instr.method? = some callee)
    (hplain : (callee.isConstructorName ||
      ((e.frame.program.method? callee).map Prod.snd).any MethodDecl.isConstructor) = false) :
    e.equality? =
      if callee.name = "op_Equality" then some false
      else if callee.name = "op_Inequality" then some true
      else none := by
  rw [Encounter.equality?, if_pos hcategory, hmethod, Option.bind_some, hplain]
  exact if_neg Bool.false_ne_true

theorem triple_callBody {callee : MethodRef} (hcategory : e.instr.code.category = .call)
    (hmethod : e.instr.method? = some callee) (receiver : Receiver) {front : List Instruction}
    {items : List Item} :
    Triple floor (Spelt past count [] front items)
      (callBody e.frame callee ((e.frame.program.method? callee).map Prod.snd) items receiver)
      fun code t => Shown past count e (front ++ code) t := by
  rw [callBody]
  split
  · next hconstructor =>
    apply Triple.pure
    intro s hs
    apply hs.append_nil.shown
    rw [Encounter.equality?, if_pos hcategory, hmethod, Option.bind_some, if_pos hconstructor]
  · next hplain =>
    have hequality := equality?_eq hcategory hmethod (Bool.eq_false_iff.2 hplain)
    split
    · next hconcat =>
      have hne {name : String} (h : Text.contains "concat" name.toLower = false) :
          callee.name ≠ name := by
        rintro rfl
        exact absurd (h.symm.trans hconcat) Bool.false_ne_true
      have hcall : e.equality? = none := by
        rw [hequality, if_neg (hne (by decide +kernel)), if_neg (hne (by decide +kernel))]
      exact triple_concat.mono (fun _ => id) fun _ _ ht => ht.shown hcall
    split
    · next hname =>
      apply triple_equality
      rw [hequality, if_pos (beq_iff_eq.1 hname)]
    split
    · next hother hname =>
      apply triple_equality
      rw [hequality, if_neg fun h => hother (beq_iff_eq.2 h), if_pos (beq_iff_eq.1 hname)]
    · next hequal hunequal =>
      have hcall : e.equality? = none := by
        rw [hequality, if_neg fun h => hequal (beq_iff_eq.2 h),
          if_neg fun h => hunequal (beq_iff_eq.2 h)]
      split
      · exact triple_property hcall callee receiver.location
      · exact triple_plainCall hcall callee receiver

theorem triple_instanceReceiver (n : Nat) {items : List Item} :
    Triple (Stock past count [] []) (Stock past count [] items) (instanceReceiver f i n)
      fun receiver t => Spelt past count [] receiver.code items t := by
  apply Triple.get
  intro s hs
  split
  · exact triple_underflow
  · next item stack hstack =>
    apply Triple.bind (Q := fun _ t => Spelt past count [] [] (item :: items) t)
    · apply Triple.set
      apply Stock.spelt
      apply hs.pass
      · rfl
      · intro other _
        show (item :: items).count other + stack.count other ≤ _
        rw [hstack, List.count_cons, List.count_cons]
        omega
    · intro _
      have hdrop : ∀ s, Spelt past count [] [] (item :: items) s → Spelt past count [] [] items s :=
        fun s hs => hs.mono fun _ => Stock.drop
      split
      · exact .pure hdrop
      · split
        · exact .pure hdrop
        · exact triple_stage.bind fun staged => .pure fun _ => id

theorem triple_plainReceiver (callee : MethodRef) (declaration : Option MethodDecl)
    {items : List Item} :
    Triple floor (Stock past count [] items) (plainReceiver f callee declaration)
      fun receiver t => Spelt past count [] receiver.code items t := by
  have hfound (this : Bool) (location : Location) :
      Triple floor (Stock past count [] items)
        (do
          let s ← get
          if this = true then
            set { s with stack := s.stack.drop 1 }
            return { location := .self }
          else return { location } : Lower Receiver) fun receiver t =>
        Spelt past count [] receiver.code items t := by
    apply Triple.get
    intro s hs
    cases this with
    | false => exact .pure fun _ => Stock.spelt
    | true =>
      apply Triple.bind (Q := fun _ t => Stock past count [] items t)
      · apply Triple.set
        apply hs.pass
        · rfl
        · intro item _
          exact Nat.add_le_add_left ((List.drop_sublist 1 s.stack).count_le item) _
      · exact fun _ => .pure fun _ => Stock.spelt
  cases declaration with
  | none => exact (triple_warn blind_stock _).bind fun _ s hs => hfound _ _ s hs
  | some d => exact fun s hs => hfound _ _ s hs

theorem triple_call (hcategory : e.instr.code.category = .call) :
    Triple (Stock past count [] []) (Stock past count [] []) (call e.frame e.instr)
      (Shown past count e) := by
  apply triple_needed
  intro callee hmethod
  apply Triple.get
  intro s _
  apply (triple_popMany _).bind
  intro items
  have hbody (receiver : Receiver) :
      Triple (Stock past count [] []) (Spelt past count [] receiver.code items)
        (do return receiver.code ++ (←
          callBody e.frame callee ((e.frame.program.method? callee).map Prod.snd) items receiver))
        (Shown past count e) :=
    (triple_callBody hcategory hmethod receiver).bind fun code => .pure fun _ => id
  dsimp only
  split
  · exact (triple_instanceReceiver _).bind hbody
  · exact (triple_plainReceiver callee _).bind hbody

/-- What an instruction does to comparisons. -/
theorem triple_step :
    Triple (Stock past count [] []) (fun s => Stock past count [] [] s ∧ s = e.state)
      (step e.frame e.instr) (Shown past count e) := by
  have hleft {x : Lower (List Instruction)}
      (h : Triple (Stock past count [] []) (Stock past count [] []) x (Shown past count e)) :
      Triple (Stock past count [] []) (fun s => Stock past count [] [] s ∧ s = e.state) x
        (Shown past count e) :=
    h.mono (fun _ => And.left) fun _ _ => id
  have hnone (h : e.instr.code.category ≠ .call) : e.equality? = none := if_neg h
  rw [step]
  split
  · next h => exact .pure fun _ hs => hs.1.shown (hnone (by rw [h]; decide))
  · next h => exact hleft (triple_load (hnone (by rw [h]; decide)))
  · next h => exact hleft (triple_store (hnone (by rw [h]; decide)))
  · next h => exact hleft (triple_call h)
  · exact hleft triple_branch
  · exact hleft triple_conditional
  · next h => exact hleft (triple_giveBack (hnone (by rw [h]; decide)))
  · next h => exact hleft (triple_arithmetic (hnone (by rw [h]; decide)))
  · next h => exact triple_shuffle (hnone (by rw [h]; decide))

end Lower

end PapyrusBackend.Lowering
