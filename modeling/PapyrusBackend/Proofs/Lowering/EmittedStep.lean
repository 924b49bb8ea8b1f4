import PapyrusBackend.Lowering.Call
import PapyrusBackend.Proofs.Lowering.EmittedCode

namespace PapyrusBackend.Lowering

open Source

inductive Emitted (i : Instr) : Instruction → Prop
  | plain {j : Instruction} (h : j.IsPlain) : Emitted i j
  | jump {offset : UInt32} (hcode : i.code.category = .branch) (h : i.target? = some offset) :
      Emitted i (.jump (some (.source offset)))
  | jumpIf {offset : UInt32} (expected : Bool) (condition : Value)
      (hcode : i.code.category = .branch) (h : i.target? = some offset) :
      Emitted i (.jumpIf expected condition (some (.source offset)))

abbrev Clear : Simulation → Prop := Stands fun _ offset => offset = none

abbrev Awaits (expected : Option UInt32) : Simulation → Prop := Stands fun next offset =>
  offset = none ∨ next = false ∧ offset = expected

abbrev Passed (f : Frame) : Simulation → Prop := Awaits (f.next?.map Instr.offset)

variable {f : Frame} {i : Instr}

theorem Stands.clear {s : Simulation} (h : Quiet s) : Clear s := ⟨h.sound, h.marks.2⟩

theorem Stands.awaits {s : Simulation} {expected : Option UInt32} (h : Clear s) :
    Awaits expected s := ⟨h.sound, .inl h.marks⟩

theorem Runs.clear {x : Lower α} {Q : α → Prop} (h : Runs Quiet x Quiet Q) : Runs Quiet x Clear Q :=
  h.mono (fun _ => id) (fun _ => Stands.clear) fun _ => id

namespace Lower

theorem runs_result {type : String} {code : List Instruction} (hcode : OrdinaryCode code)
    {make : Value → Instruction} (hmake : ∀ d, (make d).IsOrdinary) :
    Runs Quiet (produce f type code make) Clear OrdinaryCode := by
  refine (runs_produce (fun _ _ h => h) type code make).mono (fun _ => Stands.clear) (fun _ => id) ?_
  rintro _ ⟨d, rest, rfl, hrest⟩
  exact hcode.append (.cons (hmake d) hrest)

theorem isOrdinary_unary (c : Code) (float : Bool) (d operand : Value) :
    Instruction.IsOrdinary { opcode := (unaryOpcode c float).1, arguments := [d, operand] } := by
  rw [unaryOpcode]
  split
  · exact ⟨⟨rfl, rfl, rfl⟩, rfl⟩
  · cases float <;> exact ⟨⟨rfl, rfl, rfl⟩, rfl⟩

theorem runs_unary : Runs Quiet (unary f i) Clear OrdinaryCode := by
  refine runs_popOperand.bind fun item hitem => (runs_stage hitem).bind fun staged hstaged => ?_
  exact runs_result hstaged fun d => isOrdinary_unary i.code item.isFloat d _

theorem isOrdinary_binary {c : Code} {float : Bool} {opcode : Opcode}
    (h : binaryOpcode? c float = some opcode) (d lhs rhs : Value) :
    Instruction.IsOrdinary { opcode, arguments := [d, lhs, rhs] } := by
  cases c <;> cases float <;> cases h <;> exact ⟨⟨rfl, rfl, rfl⟩, rfl⟩

theorem runs_binary : Runs Quiet (binary f i) Clear OrdinaryCode := by
  refine runs_popPair.bind fun pair hpair => ?_
  dsimp only
  split
  · exact .throw rfl _
  · next opcode hopcode =>
    refine (runs_stagePair hpair.1 hpair.2).bind fun staged hstaged => ?_
    exact runs_result hstaged fun d => isOrdinary_binary hopcode d _ _

theorem runs_arithmetic : Runs Quiet (arithmetic f i) Clear OrdinaryCode := by
  rw [arithmetic]
  split
  · exact runs_unary
  · exact runs_unary
  · exact runs_binary

theorem runs_conditional : Runs Quiet (conditional f i) Clear OrdinaryCode := by
  rw [conditional]
  split
  · exact .throw rfl _
  · next opcode hopcode =>
    refine runs_popPair.bind fun pair hpair => ?_
    refine (runs_stagePair hpair.1 hpair.2).bind fun staged hstaged => ?_
    refine runs_result hstaged fun d => isOrdinary_of_compares ?_ d _ _
    revert hopcode
    cases i.code <;> intro hopcode <;> cases hopcode <;> decide

theorem runs_cast (type : String) : Runs Quiet (cast f i type) Clear OrdinaryCode := by
  refine runs_popOperand.bind fun item hitem => ?_
  have hkeep {item : Item} (h : item.isSound = true) :
      Runs Quiet (do push item; return [] : Lower (List Instruction)) Clear OrdinaryCode :=
    ((runs_push h).bind fun _ _ => .pure .nil).clear
  dsimp only
  split
  · exact hkeep rfl
  · exact hkeep rfl
  · split
    · exact hkeep hitem
    · refine (runs_stage hitem).bind fun staged hstaged => ?_
      exact runs_result hstaged fun d => ⟨⟨rfl, rfl, rfl⟩, rfl⟩

theorem runs_shuffle : Runs Quiet (shuffle f i) Clear OrdinaryCode := by
  rw [shuffle]
  split
  · refine (runs_require 1).bind fun _ _ => ?_
    refine (Runs.modify fun s hs => ⟨?_, hs.marks.2⟩).bind fun _ _ => .pure .nil
    refine List.forall_mem_append.2 ⟨fun item hitem => ?_, hs.sound⟩
    exact hs.sound item (List.mem_of_mem_take hitem)
  · exact (runs_popOperand.bind fun _ _ => .pure .nil).clear
  · exact ((runs_require 1).bind fun _ _ => .pure .nil).clear
  · exact runs_cast "Float"
  · exact runs_cast "Float"
  · exact runs_cast "Int"
  · exact .throw rfl _

theorem runs_giveBack : Runs Quiet (giveBack f i) Clear OrdinaryCode := by
  rw [giveBack]
  split
  · exact (Runs.pure (.cons ⟨⟨rfl, rfl, rfl⟩, rfl⟩ .nil)).clear
  · refine (runs_popOperand.bind fun item hitem => ?_).clear
    refine (runs_stage hitem).bind fun staged hstaged => .pure ?_
    exact hstaged.append (.cons ⟨⟨rfl, rfl, rfl⟩, rfl⟩ .nil)

theorem emitted_of_ordinary {code : List Instruction} (h : OrdinaryCode code) :
    ∀ j ∈ code, Emitted i j ∧ j.opcode.isCall = false :=
  fun j hj => ⟨.plain (h.plain j hj), (h j hj).call⟩

theorem runs_stageCondition {item : Item} (h : item.isSound = true) (expected : Bool) :
    Runs Quiet (stageCondition item expected) Quiet fun result => OrdinaryCode result.1.code := by
  rw [stageCondition]
  split
  · next opcode lhs rhs hcontent =>
    refine (runs_materialize (compares_of_isSound h hcontent) lhs rhs).bind fun made hmade => ?_
    exact runs_takeInverted.bind fun _ _ => .pure hmade
  · exact (runs_stage h).bind fun staged hstaged => .pure hstaged

/-- Code that carries items to the target of a branch, and the jump. -/
theorem runs_carry {offset : UInt32} (keep : Bool) {code : List Instruction}
    (hcode : OrdinaryCode code) {jump : Instruction}
    (hjump : Emitted i jump ∧ jump.opcode.isCall = false) :
    Runs Quiet (do return code ++ (← spill f offset keep) ++ [jump]) Quiet
      fun code => ∀ j ∈ code, Emitted i j ∧ j.opcode.isCall = false := by
  refine (runs_spill offset keep).bind fun carried hcarried => .pure ?_
  refine List.forall_mem_append.2 ⟨emitted_of_ordinary (hcode.append hcarried), ?_⟩
  exact fun j hj => List.mem_singleton.1 hj ▸ hjump

section

variable (hcode : i.code.category = .branch)

include hcode

theorem emitted_jumpIf {offset : UInt32} (hoffset : i.target? = some offset) (expected : Bool)
    (condition : Value) :
    Emitted i (.jumpIf expected condition (some (.source offset))) ∧
      (Instruction.jumpIf expected condition (some (.source offset))).opcode.isCall = false :=
  ⟨.jumpIf expected condition hcode hoffset, by cases expected <;> rfl⟩

theorem runs_branchOnTruth {offset : UInt32} (hoffset : i.target? = some offset) (expected : Bool) :
    Runs Quiet (branchOnTruth f i offset expected) Quiet
      fun code => ∀ j ∈ code, Emitted i j ∧ j.opcode.isCall = false := by
  refine runs_popOperand.bind fun item hitem => ?_
  refine (runs_stageCondition hitem expected).bind fun result hresult => ?_
  exact runs_carry true hresult (emitted_jumpIf hcode hoffset _ _)

theorem runs_branchOnComparison {offset : UInt32} (hoffset : i.target? = some offset) :
    Runs Quiet (branchOnComparison f i offset) Quiet
      fun code => ∀ j ∈ code, Emitted i j ∧ j.opcode.isCall = false := by
  rw [branchOnComparison]
  split
  · exact .throw rfl _
  · next opcode expected hopcode =>
    have hcompares : opcode ∈ [Opcode.cmpEq, .cmpLt, .cmpLe, .cmpGt, .cmpGe] := by
      revert hopcode
      cases i.code <;> intro hopcode <;> cases hopcode <;> decide
    refine runs_popPair.bind fun pair hpair => ?_
    refine (runs_stagePair hpair.1 hpair.2).bind fun staged hstaged => ?_
    refine (runs_materialize hcompares _ _).bind fun made hmade => ?_
    exact runs_carry true (hstaged.append hmade) (emitted_jumpIf hcode hoffset _ _)

theorem runs_branch :
    Runs Quiet (branch f i) Quiet fun code => ∀ j ∈ code, Emitted i j ∧ j.opcode.isCall = false := by
  refine runs_need.bind fun offset hoffset => ?_
  split
  · exact runs_carry false .nil ⟨.jump hcode hoffset, rfl⟩
  · exact runs_branchOnTruth hcode hoffset true
  · exact runs_branchOnTruth hcode hoffset false
  · exact runs_branchOnComparison hcode hoffset

end

theorem runs_loadField : Runs Quiet (loadField f i) Quiet OrdinaryCode := by
  refine runs_need.bind fun field _ => runs_popOperand.bind fun holder _ => ?_
  dsimp only
  split
  · split
    · exact (runs_push rfl).bind fun _ _ => .pure .nil
    · exact .throw rfl _
  · refine (runs_fieldVariable field).bind fun v _ => ?_
    exact (runs_push rfl).bind fun _ _ => .pure .nil

theorem runs_loadElement : Runs Quiet (loadElement f i) Clear OrdinaryCode := by
  refine runs_popPair.bind fun pair hpair => ?_
  refine (runs_stagePair hpair.1 hpair.2).bind fun staged hstaged => ?_
  exact runs_result hstaged fun d => ⟨⟨rfl, rfl, rfl⟩, rfl⟩

theorem runs_loadLength : Runs Quiet (loadLength f i) Clear OrdinaryCode := by
  refine runs_popOperand.bind fun item hitem => (runs_stage hitem).bind fun staged hstaged => ?_
  exact runs_result hstaged fun d => ⟨⟨rfl, rfl, rfl⟩, rfl⟩

theorem runs_newArray : Runs Quiet (newArray f i) Clear OrdinaryCode := by
  refine runs_need.bind fun element _ => runs_popOperand.bind fun item hitem => ?_
  refine (runs_stage hitem).bind fun staged hstaged => ?_
  exact runs_result hstaged fun d => ⟨⟨rfl, rfl, rfl⟩, rfl⟩

theorem runs_newObject : Runs Quiet (newObject f i) Clear OrdinaryCode := by
  refine runs_need.bind fun ctor _ => .get fun s _ => (runs_popMany _).bind fun items _ => ?_
  have hpush {item : Item} (h : item.isSound = true) :
      Runs Quiet (do push item; return [] : Lower (List Instruction)) Clear OrdinaryCode :=
    ((runs_push h).bind fun _ _ => .pure .nil).clear
  dsimp only
  split
  · exact hpush rfl
  · split
    · split
      · exact runs_result .nil fun d => ⟨⟨rfl, rfl, rfl⟩, rfl⟩
      · exact (runs_warn _).bind fun _ _ => hpush rfl
    · exact hpush rfl

theorem runs_load : Runs Quiet (load f i) Clear OrdinaryCode := by
  have hpush {item : Item} (h : item.isSound = true) :
      Runs Quiet (do push item; return [] : Lower (List Instruction)) Clear OrdinaryCode :=
    ((runs_push h).bind fun _ _ => .pure .nil).clear
  rw [load]
  split
  · exact runs_need.bind fun index _ => (runs_argument index).bind fun _ hitem => hpush hitem
  · exact runs_need.bind fun index _ => (runs_getLocal index).bind fun _ _ => hpush rfl
  · exact hpush rfl
  · exact hpush rfl
  · exact hpush rfl
  · exact hpush rfl
  · exact hpush rfl
  · exact runs_loadField.clear
  · exact runs_loadField.clear
  · exact runs_need.bind fun field _ => (runs_fieldVariable field).bind fun _ _ => hpush rfl
  · exact runs_need.bind fun _ _ => hpush rfl
  · exact runs_loadElement
  · exact runs_loadLength
  · exact runs_newArray
  · exact runs_newObject
  · exact .throw rfl _

theorem runs_storeLocal : Runs Quiet (storeLocal f i) Quiet OrdinaryCode := by
  refine runs_need.bind fun index _ => runs_popOperand.bind fun item hitem => ?_
  split
  · exact (Runs.of_kept (triple_bindLocal blind_stands index _)).bind fun _ _ => .pure .nil
  · refine (runs_getLocal index).bind fun v _ => ?_
    split
    · exact .pure .nil
    · exact runs_assign hitem

theorem runs_storeArgument : Runs Quiet (storeArgument f i) Quiet OrdinaryCode := by
  refine runs_need.bind fun index _ => runs_popOperand.bind fun item hitem => ?_
  exact (runs_parameter index).bind fun v _ => runs_assign hitem

theorem runs_storeIn (field : FieldRef) {item : Item} (h : item.isSound = true) :
    Runs Quiet (storeIn f field item) Quiet OrdinaryCode := by
  rw [storeIn]
  split
  · exact (Runs.of_kept (triple_bindField blind_stands field _)).bind fun _ _ => .pure .nil
  · exact (runs_fieldVariable field).bind fun v _ => runs_assign h

theorem runs_storeField : Runs Quiet (storeField f i) Quiet OrdinaryCode := by
  refine runs_need.bind fun field _ => runs_popPair.bind fun pair hpair => ?_
  dsimp only
  split
  · refine (runs_stagePair hpair.1 hpair.2).bind fun staged hstaged => .pure ?_
    exact hstaged.append (.cons ⟨⟨rfl, rfl, rfl⟩, rfl⟩ .nil)
  · exact runs_storeIn field hpair.2

theorem runs_storeElement : Runs Quiet (storeElement f i) Quiet OrdinaryCode := by
  refine runs_popTriple.bind fun triple htriple => ?_
  refine (runs_stage htriple.1).bind fun array harray => ?_
  refine (runs_stage htriple.2.1).bind fun index hindex => ?_
  refine (runs_stage htriple.2.2).bind fun item hitem => .pure ?_
  exact ((harray.append hindex).append hitem).append (.cons ⟨⟨rfl, rfl, rfl⟩, rfl⟩ .nil)

theorem runs_store : Runs Quiet (store f i) Quiet OrdinaryCode := by
  rw [store]
  split
  · exact runs_storeLocal
  · exact runs_storeArgument
  · refine runs_need.bind fun field _ => runs_popOperand.bind fun item hitem => ?_
    exact runs_storeIn field hitem
  · exact runs_storeField
  · exact runs_storeElement
  · exact .throw rfl _

theorem runs_joinTexts (destination first : Value) (values : List Value) :
    Runs Clear (joinTexts destination first values) Clear OrdinaryCode := by
  induction values generalizing first with
  | nil => exact .pure .nil
  | cons second rest ih =>
    cases rest with
    | nil => exact .pure (.cons ⟨⟨rfl, rfl, rfl⟩, rfl⟩ .nil)
    | cons third rest =>
      refine (runs_temporary "String").bind fun v _ => (ih v.value).bind fun code hcode => ?_
      exact .pure (.cons ⟨⟨rfl, rfl, rfl⟩, rfl⟩ hcode)

theorem runs_concat {items : List Item} (h : ∀ item ∈ items, item.isSound = true) :
    Runs Clear (concat f items) Clear OrdinaryCode := by
  refine (runs_destination (fun _ _ h => h) "String").bind fun d hd => ?_
  refine (runs_stageAll h).bind fun staged hstaged => ?_
  have hrest {joined : List Instruction} (hjoined : OrdinaryCode joined) :
      Runs Clear (do return staged.1 ++ joined ++ (← finish d)) Clear OrdinaryCode :=
    (runs_finish hd).bind fun rest hrest => .pure ((hstaged.append hjoined).append hrest)
  dsimp only
  split
  · exact hrest (.cons ⟨⟨rfl, rfl, rfl⟩, rfl⟩ .nil)
  · exact hrest (.cons ⟨⟨rfl, rfl, rfl⟩, rfl⟩ .nil)
  · exact (runs_joinTexts _ _ _).bind fun joined hjoined => hrest hjoined

theorem runs_equality {items : List Item} (h : ∀ item ∈ items, item.isSound = true)
    (inequality : Bool) : Runs Quiet (equality f items inequality) (Passed f) OrdinaryCode := by
  simp only [equality]
  split
  · next a b =>
    have ha : a.isSound = true := h a List.mem_cons_self
    have hb : b.isSound = true := h b (List.mem_cons_of_mem a List.mem_cons_self)
    refine (Runs.modify (J := Quiet) fun s hs => ⟨hs.sound, hs.marks⟩).bind fun _ _ => ?_
    refine (runs_stagePair ha hb).bind fun staged hstaged => ?_
    obtain ⟨code, lhs, rhs⟩ := staged
    have hpending : Runs Quiet
        (do
          modify fun s => { s with skipTo := f.next?.map Instr.offset }
          push { content := .comparison .cmpEq lhs rhs, type := "Bool" }
          return code : Lower (List Instruction)) (Passed f) OrdinaryCode := by
      refine (Runs.modify (J := Passed f) fun s hs =>
        ⟨hs.sound, .inr ⟨hs.marks.1, rfl⟩⟩).bind fun _ _ => ?_
      exact (runs_push rfl).bind fun _ _ => .pure hstaged
    dsimp only
    split
    · exact hpending
    · split
      · refine Runs.mono ?_ (fun _ => Stands.clear) (fun _ => Stands.awaits) fun _ => id
        refine (runs_destination (fun _ _ h => h) "Bool").bind fun d hd => ?_
        refine (Runs.modify (J := Clear) fun s hs => ⟨hs.sound, hs.marks⟩).bind fun _ _ => ?_
        refine (runs_finish hd).bind fun rest hrest => .pure (hstaged.append ?_)
        refine .cons ⟨⟨rfl, rfl, rfl⟩, rfl⟩ ?_
        cases inequality with
        | true => exact .cons (isOrdinary_negation _) hrest
        | false => exact hrest
      · exact hpending
  · exact .throw rfl _

theorem runs_propertyName (callee : MethodRef) (location : Location) :
    Runs Quiet (propertyName f callee location) Quiet fun _ => True := by
  simp only [propertyName]
  split
  · split
    · exact .pure trivial
    · exact .throw rfl _
  · exact .pure trivial

theorem runs_property (callee : MethodRef) {items : List Item}
    (h : ∀ item ∈ items, item.isSound = true) (location : Location) :
    Runs Quiet (property f callee items location) Clear OrdinaryCode := by
  rw [property]
  split
  · exact .throw rfl _
  · refine (runs_propertyName callee location).bind fun name _ => ?_
    split
    · exact runs_result .nil fun d => ⟨⟨rfl, rfl, rfl⟩, rfl⟩
    · cases items with
      | nil => exact .throw rfl _
      | cons item items =>
        refine Runs.clear ((runs_stage (h item List.mem_cons_self)).bind fun staged hstaged => ?_)
        exact .pure (hstaged.append (.cons ⟨⟨rfl, rfl, rfl⟩, rfl⟩ .nil))

/-- A call is plain but not ordinary. -/
theorem isPlain_callInstruction (location : Location) (name : String) (arguments : List Value)
    (d : Value) : (callInstruction location name arguments d).IsPlain := by
  cases location <;> exact ⟨rfl, rfl, rfl⟩

theorem runs_plainCall (callee : MethodRef) {items : List Item}
    (h : ∀ item ∈ items, item.isSound = true) (receiver : Receiver) :
    Runs Quiet (plainCall f callee items receiver) Clear PlainCode := by
  refine (runs_stageAll h).bind fun staged hstaged => ?_
  refine (runs_produce (fun _ _ h => h) _ _ _).mono (fun _ => Stands.clear) (fun _ => id) ?_
  rintro _ ⟨d, rest, rfl, hrest⟩
  refine List.forall_mem_append.2 ⟨hstaged.plain, List.forall_mem_cons.2 ⟨?_, hrest.plain⟩⟩
  exact isPlain_callInstruction _ _ _ d

theorem runs_callBody (callee : MethodRef) (declaration : Option MethodDecl) {items : List Item}
    (h : ∀ item ∈ items, item.isSound = true) (receiver : Receiver) :
    Runs Quiet (callBody f callee declaration items receiver) (Passed f) PlainCode := by
  have hpassed {x : Lower (List Instruction)} (h : Runs Quiet x Clear OrdinaryCode) :
      Runs Quiet x (Passed f) PlainCode :=
    h.mono (fun _ => id) (fun _ => Stands.awaits) fun _ => OrdinaryCode.plain
  rw [callBody]
  split
  · exact hpassed (Runs.pure .nil).clear
  split
  · exact hpassed ((runs_concat h).mono (fun _ => Stands.clear) (fun _ => id) fun _ => id)
  split
  · exact (runs_equality h false).mono (fun _ => id) (fun _ => id) fun _ => OrdinaryCode.plain
  split
  · exact (runs_equality h true).mono (fun _ => id) (fun _ => id) fun _ => OrdinaryCode.plain
  split
  · exact hpassed (runs_property callee h receiver.location)
  · exact (runs_plainCall callee h receiver).mono (fun _ => id) (fun _ => Stands.awaits) fun _ => id

theorem runs_instanceReceiver (count : Nat) :
    Runs Quiet (instanceReceiver f i count) Quiet fun receiver => OrdinaryCode receiver.code := by
  refine .get fun s hs => ?_
  split
  · exact runs_underflow
  · next item stack hstack =>
    have hitem : item.isSound = true := hs.sound item (hstack ▸ List.mem_cons_self)
    have hquiet : Quiet { s with stack } :=
      ⟨fun item' hitem' => hs.sound item' (hstack ▸ List.mem_cons_of_mem item hitem'), hs.marks⟩
    refine (Runs.set hquiet).bind fun _ _ => ?_
    split
    · exact .pure .nil
    · split
      · exact .pure .nil
      · exact (runs_stage hitem).bind fun staged hstaged => .pure hstaged

theorem runs_plainReceiver (callee : MethodRef) (declaration : Option MethodDecl) :
    Runs Quiet (plainReceiver f callee declaration) Quiet fun receiver =>
      OrdinaryCode receiver.code := by
  have hfound (this : Bool) (location : Location) :
      Runs Quiet
        (do
          let s ← get
          if this = true then
            set { s with stack := s.stack.drop 1 }
            return { location := .self }
          else return { location } : Lower Receiver) Quiet fun receiver =>
        OrdinaryCode receiver.code := by
    refine .get fun s hs => ?_
    cases this with
    | false => exact .pure .nil
    | true =>
      have hquiet : Quiet { s with stack := s.stack.drop 1 } :=
        ⟨fun item hitem => hs.sound item (List.mem_of_mem_drop hitem), hs.marks⟩
      exact (Runs.set hquiet).bind fun _ _ => .pure .nil
  cases declaration with
  | none => exact (runs_warn _).bind fun _ _ s hs => hfound _ _ s hs
  | some d => exact fun s hs => hfound _ _ s hs

theorem runs_call : Runs Quiet (call f i) (Passed f) PlainCode := by
  refine runs_need.bind fun callee _ => .get fun s _ => ?_
  refine (runs_popMany _).bind fun items hitems => ?_
  have hbody (receiver : Receiver) (hreceiver : OrdinaryCode receiver.code) :
      Runs Quiet (do
        return receiver.code ++
          (← callBody f callee ((f.program.method? callee).map Prod.snd) items receiver))
        (Passed f) PlainCode :=
    (runs_callBody callee _ hitems receiver).bind fun code hcode =>
      .pure (List.forall_mem_append.2 ⟨hreceiver.plain, hcode⟩)
  dsimp only
  split
  · exact (runs_instanceReceiver _).bind hbody
  · exact (runs_plainReceiver callee _).bind hbody

/-- What an instruction that is no call emits. -/
theorem runs_step_of_ne_call (hcall : i.code.category ≠ .call) :
    Runs Quiet (step f i) (Passed f)
      fun code => ∀ j ∈ code, Emitted i j ∧ j.opcode.isCall = false := by
  have hordinary {x : Lower (List Instruction)} (h : Runs Quiet x Clear OrdinaryCode) :
      Runs Quiet x (Passed f) fun code => ∀ j ∈ code, Emitted i j ∧ j.opcode.isCall = false :=
    h.mono (fun _ => id) (fun _ => Stands.awaits) fun _ => emitted_of_ordinary
  rw [step]
  split
  · exact hordinary (Runs.pure .nil).clear
  · exact hordinary runs_load
  · exact hordinary runs_store.clear
  · next hcode => exact absurd hcode hcall
  · next hcode =>
    exact (runs_branch hcode).clear.mono (fun _ => id) (fun _ => Stands.awaits) fun _ => id
  · exact hordinary runs_conditional
  · exact hordinary runs_giveBack
  · exact hordinary runs_arithmetic
  · exact hordinary runs_shuffle

/-- What an instruction emits, and what it leaves to be skipped. -/
theorem runs_step : Runs Quiet (step f i) (Passed f) fun code => ∀ j ∈ code, Emitted i j := by
  by_cases hcall : i.code.category = .call
  · simp only [step, hcall]
    exact runs_call.mono (fun _ => id) (fun _ => id) fun _ hcode j hj => .plain (hcode j hj)
  · exact (runs_step_of_ne_call hcall).mono (fun _ => id) (fun _ => id) fun _ hcode j hj =>
      (hcode j hj).1

end Lower

end PapyrusBackend.Lowering
