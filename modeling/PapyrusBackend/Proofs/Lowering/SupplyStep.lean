import PapyrusBackend.Proofs.Lowering.LookAheadStep
import PapyrusBackend.Proofs.Lowering.SupplyStaging

namespace PapyrusBackend.Lowering

open Source

/-- A store that finds the given stack writes the variable of a field. A delegate would only be bound
to it, and the member of a struct has no variable. -/
inductive WritesField (store : Instr) (field : FieldRef) : Stack → Prop
  | static {item : Item} {rest : Stack} (hcode : store.code = .stsfld)
      (hfield : store.field? = some field) (hitem : item.delegate? = none) :
      WritesField store field (item :: rest)
  | instance {holder item : Item} {rest : Stack} (hcode : store.code = .stfld)
      (hfield : store.field? = some field) (hitem : item.delegate? = none)
      (hholder : Naming.isStruct holder.type = false) :
      WritesField store field (item :: holder :: rest)

theorem WritesField.operand {store : Instr} {field : FieldRef} {stack : Stack}
    (h : WritesField store field stack) : store.field? = some field := by
  cases h with
  | static _ hfield => exact hfield
  | «instance» _ hfield => exact hfield

inductive Writes (f : Frame) (store : Instr) (stack : Stack) : String → Prop
  | argument {index : UInt16} {v : Variable} (hcode : store.code = .starg)
      (hindex : store.index? = some index) (hv : argumentVariable? f index = some v) :
      Writes f store stack v.name
  | field {field : FieldRef} (h : WritesField store field stack) :
      Writes f store stack (Naming.fieldName field.name)

/-- An argument is a parameter, or the object of the method. -/
theorem argumentVariable?_cases {f : Frame} {index : UInt16} {v : Variable}
    (h : argumentVariable? f index = some v) :
    v ∈ f.parameters ∨ v.name = "self" ∧ f.method.isStatic = false ∧ index = 0 := by
  rw [argumentVariable?] at h
  split at h
  · exact .inl (List.mem_of_getElem? h)
  · next hstatic =>
    split at h
    · next hindex =>
      cases h
      exact .inr ⟨rfl, Bool.eq_false_iff.2 hstatic, hindex⟩
    · exact .inl (List.mem_of_getElem? h)

def Provides (base stray : String → Prop) (slots : Variable → Prop) (code : List Instruction)
    (x : Lower (List Instruction)) : Prop :=
  Triple (Supplies base stray slots code) (Supplies base stray slots code) x
    (Supplied base stray slots code)

variable {f : Frame} {i : Instr} {base stray : String → Prop} {slots : Variable → Prop}
  {code : List Instruction} {s t : Simulation} {floor J : Simulation → Prop}

namespace Lower

theorem supplies_nothing :
    Triple floor (Supplies base stray slots code) (pure []) (Supplied base stray slots code) :=
  .pure fun _ ht => (ht.toGrounded.at_once.supplies ht.familiar).supplied

theorem supplies_pushed {item : Item} (h : item.Familiar base code) :
    Triple floor (Supplies base stray slots code)
      (do push item; return [] : Lower (List Instruction)) (Supplied base stray slots code) :=
  (supplies_push h).bind fun _ => supplies_nothing

theorem familiar_ofValue {value : Value} (h : KnownValue base code value) :
    (Item.ofValue value).Familiar base code := ⟨rfl, h⟩

/-- An instruction without a result behind code that has run. -/
theorem supplies_effect (emitted : List Instruction) {j : Instruction}
    (hj : j.opcode.resultArgument? = none)
    (hknown : ∀ value ∈ j.arguments ++ j.variadic, KnownValue base (code ++ emitted) value)
    (ht : Supplies base stray slots (code ++ emitted) t) :
    Supplies base stray slots (code ++ (emitted ++ [j])) t := by
  rw [← List.append_assoc]
  refine (ht.toGrounded.emit (fun name hname => ?_) fun name hname => ?_).supplies ht.familiar
  · rw [Instruction.reads, Instruction.operands, hj, List.mem_flatMap] at hname
    obtain ⟨value, hvalue, hname⟩ := hname
    exact hknown value hvalue name hname
  · rw [Instruction.assigned, hj] at hname
    cases hname

section

variable (hvocabulary : Vocabulary base f)

include hvocabulary

theorem supplies_item {item : Item} (h : item.Familiar base code) :
    Triple floor (Supplies base stray slots code) (stage item) fun staged t =>
      KnownValue base (code ++ staged.code) staged.value ∧
        Supplies base stray slots (code ++ staged.code) t :=
  (supplies_stage stable_supplies (fun _ ht => ht.toGrounded) hvocabulary h).mono (fun _ => id)
    fun _ _ ht => ⟨ht.1, ht.2.2.supplies ht.2.1.familiar⟩

theorem supplies_pair {a b : Item} (ha : a.Familiar base code) (hb : b.Familiar base code) :
    Triple floor (Supplies base stray slots code) (stagePair a b) fun staged t =>
      (KnownValue base (code ++ staged.1) staged.2.1 ∧
        KnownValue base (code ++ staged.1) staged.2.2) ∧
          Supplies base stray slots (code ++ staged.1) t :=
  (supplies_stagePair stable_supplies (fun _ ht => ht.toGrounded) hvocabulary ha hb).mono
    (fun _ => id) fun _ _ ht => ⟨ht.1, ht.2.2.supplies ht.2.1.familiar⟩

omit hvocabulary in
theorem supplies_comparison {opcode : Opcode} (hopcode : opcode.resultArgument? = some 0)
    {lhs rhs : Value} (hlhs : KnownValue base code lhs) (hrhs : KnownValue base code rhs) :
    Triple floor (Supplies base stray slots code) (materialize opcode lhs rhs)
      fun made t => KnownValue base (code ++ made.code) made.value ∧
        Supplies base stray slots (code ++ made.code) t := by
  refine (supplies_materialize stable_supplies (fun _ ht => ht.toGrounded) hopcode hlhs hrhs).mono
    (fun _ => id) fun made t ht => ?_
  obtain ⟨v, ⟨hvalue, hmade⟩, ⟨ht, hgrounded⟩, _⟩ := ht
  rw [hvalue]
  exact ⟨knownValue_reference (known_append.2 (.inr hmade)), hgrounded.supplies ht.familiar⟩

/-- An instruction whose first argument takes its result. -/
theorem supplies_result (type : String) {emitted : List Instruction} {opcode : Opcode}
    (hopcode : opcode.resultArgument? = some 0) {arguments : List Value}
    (harguments : ∀ value ∈ arguments, KnownValue base (code ++ emitted) value) :
    Triple floor (Supplies base stray slots (code ++ emitted))
      (produce f type emitted fun d => { opcode, arguments := d :: arguments })
      (Supplied base stray slots code) := by
  apply supplies_produce hvocabulary type
  · exact fun v => assigned_result hopcode v arguments
  · intro v name hname
    rw [Instruction.reads_of_result hopcode, List.mem_flatMap] at hname
    obtain ⟨value, hvalue, hname⟩ := hname
    exact harguments value hvalue name hname

theorem provides_unary : Provides base stray slots code (unary f i) := by
  refine supplies_popOperand.bind_and fun item hitem => ?_
  refine (supplies_item hvocabulary hitem).bind_and fun staged hstaged => ?_
  refine supplies_result hvocabulary _ (unaryOpcode_result _ _) ?_
  exact List.forall_mem_singleton.2 hstaged

theorem provides_binary : Provides base stray slots code (binary f i) := by
  refine supplies_popPair.bind_and fun pair hpair => ?_
  dsimp only
  split
  · exact .throw rfl
  · next opcode hopcode =>
    refine (supplies_pair hvocabulary hpair.1 hpair.2).bind_and fun staged hstaged => ?_
    refine supplies_result hvocabulary _ (binaryOpcode?_result hopcode) ?_
    exact List.forall_mem_cons.2 ⟨hstaged.1, List.forall_mem_singleton.2 hstaged.2⟩

theorem provides_arithmetic : Provides base stray slots code (arithmetic f i) := by
  rw [arithmetic]
  split
  · exact provides_unary hvocabulary
  · exact provides_unary hvocabulary
  · exact provides_binary hvocabulary

theorem provides_conditional : Provides base stray slots code (conditional f i) := by
  rw [conditional]
  split
  · exact .throw rfl
  · next opcode hopcode =>
    refine supplies_popPair.bind_and fun pair hpair => ?_
    refine (supplies_pair hvocabulary hpair.1 hpair.2).bind_and fun staged hstaged => ?_
    refine supplies_result hvocabulary _ (comparisonOpcode?_result hopcode) ?_
    exact List.forall_mem_cons.2 ⟨hstaged.1, List.forall_mem_singleton.2 hstaged.2⟩

theorem provides_cast (type : String) : Provides base stray slots code (cast f i type) := by
  refine supplies_popOperand.bind_and fun item hitem => ?_
  have hcoerced {value : Value} (hvalue : operandNames value = []) :
      (Item.ofValue (f.coerce type value)).Familiar base code := by
    refine familiar_ofValue (KnownValue.coerce (fun name hname => ?_) hvocabulary type)
    rw [hvalue] at hname
    cases hname
  dsimp only
  split
  · exact supplies_pushed (hcoerced rfl)
  · exact supplies_pushed (hcoerced rfl)
  · split
    · exact supplies_pushed hitem
    · refine (supplies_item hvocabulary hitem).bind_and fun staged hstaged => ?_
      have hcast : Opcode.cast.resultArgument? = some 0 := rfl
      exact supplies_result hvocabulary _ hcast (List.forall_mem_singleton.2 hstaged)

theorem provides_shuffle : Provides base stray slots code (shuffle f i) := by
  rw [shuffle]
  split
  · refine (supplies_require 1).bind fun _ => ?_
    refine Triple.bind (Q := fun _ => Supplies base stray slots code)
      (.modify fun t ht => ?_) fun _ => supplies_nothing
    refine ht.restack (List.forall_mem_append.2 ⟨fun item hitem => ?_, ht.familiar.items⟩) rfl rfl
      rfl fun _ => id
    exact ht.familiar.items item (List.mem_of_mem_take hitem)
  · exact supplies_popOperand.bind_and fun _ _ => supplies_nothing
  · exact (supplies_require 1).bind fun _ => supplies_nothing
  · exact provides_cast hvocabulary "Float"
  · exact provides_cast hvocabulary "Float"
  · exact provides_cast hvocabulary "Int"
  · exact .throw rfl

theorem provides_giveBack : Provides base stray slots code (giveBack f i) := by
  rw [giveBack]
  split
  · refine .pure fun t ht => ?_
    have hnone : KnownValue base (code ++ []) .none := fun _ hname => (by cases hname)
    exact Supplies.supplied (supplies_effect [] rfl (List.forall_mem_singleton.2 hnone)
      (ht.toGrounded.at_once.supplies ht.familiar))
  · refine supplies_popOperand.bind_and fun item hitem => ?_
    refine (supplies_item hvocabulary hitem).bind_and fun staged hstaged => .pure fun t ht => ?_
    refine Supplies.supplied (supplies_effect staged.code rfl (List.forall_mem_singleton.2 ?_) ht)
    exact hstaged.coerce hvocabulary _

theorem supplies_stageCondition {item : Item} (h : item.Familiar base code) (expected : Bool) :
    Triple floor (Supplies base stray slots code) (stageCondition item expected)
      fun result t => KnownValue base (code ++ result.1.code) result.1.value ∧
        Supplies base stray slots (code ++ result.1.code) t := by
  rw [stageCondition]
  split
  · next opcode lhs rhs hcontent =>
    have hknown := h.known
    rw [Item.mentions, hcontent] at hknown
    have hlhs : KnownValue base code lhs := fun name hname =>
      hknown name (List.mem_append_left _ hname)
    have hrhs : KnownValue base code rhs := fun name hname =>
      hknown name (List.mem_append_right _ hname)
    refine (supplies_comparison (isSound_comparison h.sound hcontent) hlhs hrhs).bind_and
      fun made hmade => ?_
    exact (supplies_takeInverted stable_supplies).bind fun _ => .pure fun t ht => ⟨hmade, ht⟩
  · exact (supplies_item hvocabulary h).bind_and fun staged hstaged => .pure fun t ht =>
      ⟨hstaged, ht⟩

/-- Code that carries items to the target of a branch, and the jump. -/
theorem supplies_carry {offset : UInt32} (keep : Bool) {emitted : List Instruction}
    {jump : Instruction} (hjump : jump.opcode.resultArgument? = none)
    (hknown : ∀ value ∈ jump.arguments ++ jump.variadic, KnownValue base (code ++ emitted) value) :
    Triple floor (Supplies base stray (FamiliarVariable base code) (code ++ emitted))
      (do return emitted ++ (← spill f offset keep) ++ [jump]) fun result =>
        Served base stray (code ++ result) := by
  have hslots (v : Variable) (hv : FamiliarVariable base code v) :
      FamiliarVariable base (code ++ emitted) v := hv.append emitted
  refine (supplies_spill hvocabulary hslots offset keep).bind fun carried => .pure fun t ht => ?_
  rw [List.append_assoc] at ht
  have hvalues : ∀ value ∈ jump.arguments ++ jump.variadic,
      KnownValue base (code ++ (emitted ++ carried)) value := by
    intro value hvalue
    rw [← List.append_assoc]
    exact (hknown value hvalue).append carried
  refine (supplies_effect _ hjump hvalues ht).mono_slots fun v hv => ?_
  rw [← List.append_assoc]
  exact hv.append [jump]

omit hvocabulary in
theorem resultArgument?_jumpIf (expected : Bool) (condition : Value) (target : Option Target) :
    (Instruction.jumpIf expected condition target).opcode.resultArgument? = none := by
  cases expected <;> rfl

omit hvocabulary in
theorem knownValue_jumpIf {expected : Bool} {condition : Value} {target : Option Target}
    (h : KnownValue base code condition) :
    ∀ value ∈ (Instruction.jumpIf expected condition target).arguments ++
      (Instruction.jumpIf expected condition target).variadic, KnownValue base code value := by
  refine List.forall_mem_cons.2 ⟨h, List.forall_mem_singleton.2 ?_⟩
  exact fun _ hname => (by cases hname)

theorem provides_branchOnTruth (offset : UInt32) (expected : Bool) :
    Triple (Served base stray code) (Served base stray code)
      (branchOnTruth f i offset expected) fun emitted =>
        Served base stray (code ++ emitted) := by
  refine supplies_popOperand.bind_and fun item hitem => ?_
  refine (supplies_stageCondition hvocabulary hitem expected).bind_and fun result hresult => ?_
  exact supplies_carry hvocabulary true (resultArgument?_jumpIf _ _ _) (knownValue_jumpIf hresult)

theorem provides_branchOnComparison (offset : UInt32) :
    Triple (Served base stray code) (Served base stray code)
      (branchOnComparison f i offset) fun emitted =>
        Served base stray (code ++ emitted) := by
  rw [branchOnComparison]
  split
  · exact .throw rfl
  · next opcode expected hopcode =>
    have hresult : opcode.resultArgument? = some 0 := by
      revert hopcode
      cases i.code <;> intro hopcode <;> cases hopcode <;> rfl
    refine supplies_popPair.bind_and fun pair hpair => ?_
    refine (supplies_pair hvocabulary hpair.1 hpair.2).bind_and fun staged hstaged => ?_
    refine (supplies_comparison hresult hstaged.1 hstaged.2).bind_and fun made hmade => ?_
    simp only [List.append_assoc code] at hmade ⊢
    exact supplies_carry hvocabulary true (resultArgument?_jumpIf _ _ _) (knownValue_jumpIf hmade)

theorem provides_branch :
    Triple (Served base stray code) (Served base stray code) (branch f i)
      fun emitted => Served base stray (code ++ emitted) := by
  refine triple_needed fun offset _ => ?_
  split
  · have hdistance : KnownValue base (code ++ []) (.int 0) := fun _ hname => (by cases hname)
    have hcarry : Triple (Served base stray code)
        (Supplies base stray (FamiliarVariable base code) (code ++ []))
        (do return [] ++ (← spill f offset false) ++ [.jump (some (.source offset))])
        fun emitted => Served base stray (code ++ emitted) :=
      supplies_carry hvocabulary false rfl (List.forall_mem_singleton.2 hdistance)
    exact hcarry.mono (fun t ht => ht.toGrounded.at_once.supplies ht.familiar) fun _ _ => id
  · exact provides_branchOnTruth hvocabulary offset true
  · exact provides_branchOnTruth hvocabulary offset false
  · exact provides_branchOnComparison hvocabulary offset

omit hvocabulary in
theorem provides_loadField (hi : Spoken base i) :
    Provides base stray slots code (loadField f i) := by
  refine triple_needed fun field hfield => supplies_popOperand.bind_and fun holder hholder => ?_
  obtain ⟨hname, hvariable⟩ := hi.field field hfield
  dsimp only
  split
  · split
    · next source hcontent =>
      have hknown := hholder.known
      rw [Item.mentions, hcontent] at hknown
      refine supplies_pushed ⟨rfl, List.forall_mem_cons.2 ⟨hknown _ List.mem_cons_self, ?_⟩⟩
      exact List.forall_mem_singleton.2 (.inl hname)
    · exact .throw rfl
  · exact (supplies_fieldVariable hvariable).bind_and fun v hv => supplies_pushed hv.1

theorem provides_loadElement : Provides base stray slots code (loadElement f i) := by
  refine supplies_popPair.bind_and fun pair hpair => ?_
  refine (supplies_pair hvocabulary hpair.1 hpair.2).bind_and fun staged hstaged => ?_
  have hresult : Opcode.arrayGet.resultArgument? = some 0 := rfl
  refine supplies_result hvocabulary _ hresult ?_
  exact List.forall_mem_cons.2 ⟨hstaged.1, List.forall_mem_singleton.2 hstaged.2⟩

theorem provides_loadLength : Provides base stray slots code (loadLength f i) := by
  refine supplies_popOperand.bind_and fun item hitem => ?_
  refine (supplies_item hvocabulary hitem).bind_and fun staged hstaged => ?_
  have hresult : Opcode.arrayLength.resultArgument? = some 0 := rfl
  exact supplies_result hvocabulary _ hresult (List.forall_mem_singleton.2 hstaged)

theorem provides_newArray : Provides base stray slots code (newArray f i) := by
  refine triple_needed fun element _ => supplies_popOperand.bind_and fun item hitem => ?_
  refine (supplies_item hvocabulary hitem).bind_and fun staged hstaged => ?_
  have hresult : Opcode.arrayCreate.resultArgument? = some 0 := rfl
  exact supplies_result hvocabulary _ hresult (List.forall_mem_singleton.2 hstaged)

omit hvocabulary in
theorem known_loadedMethod {items : List Item} (hitems : ∀ item ∈ items, item.Familiar base code)
    {name : String} (h : loadedMethod? items = some name) : Known base code name := by
  obtain ⟨item, hitem, hname⟩ := List.exists_of_findSome?_eq_some h
  split at hname
  · next method hcontent =>
    cases hname
    have hknown := (hitems item hitem).known
    rw [Item.mentions, hcontent] at hknown
    exact hknown _ List.mem_cons_self
  · cases hname

theorem provides_newObject : Provides base stray slots code (newObject f i) := by
  refine triple_needed fun ctor _ => Triple.get fun s _ => ?_
  refine (supplies_popMany _).bind_and fun items hitems => ?_
  have hnothing (type : String) :
      Item.Familiar base code { content := .literal .none, type } :=
    ⟨rfl, fun _ hname => (by cases hname)⟩
  dsimp only
  split
  · refine supplies_pushed (FamiliarVariable.of_known ?_ fun name hname => ?_)
    · cases hloaded : loadedMethod? items with
      | none => exact .inl hvocabulary.empty
      | some name => exact known_loadedMethod hitems hloaded
    · exact known_loadedMethod hitems hname
  · split
    · split
      · have hresult : Opcode.structCreate.resultArgument? = some 0 := rfl
        refine Triple.mono (supplies_result hvocabulary _ hresult fun value hvalue => ?_)
          (fun t ht => ht.toGrounded.at_once.supplies ht.familiar) fun _ _ => id
        exact absurd hvalue List.not_mem_nil
      · exact (supplies_warn stable_supplies _).bind fun _ => supplies_pushed (hnothing _)
    · exact supplies_pushed (hnothing _)

theorem provides_load (hi : Spoken base i) : Provides base stray slots code (load f i) := by
  rw [load]
  have hliteral (operand : Operand) : KnownValue base code (literalOf operand) := by
    cases operand <;> exact fun _ hname => (by cases hname)
  split
  · refine triple_needed fun index _ => ?_
    refine (supplies_argument (J := Supplies base stray slots code) code hvocabulary
      index).bind_and fun item hitem => ?_
    exact supplies_pushed hitem
  · refine triple_needed fun index _ => (supplies_getLocal index).bind_and fun v hv => ?_
    exact (supplies_pushed hv).mono (fun t ht => ht.1) fun _ _ => id
  · exact supplies_pushed (familiar_ofValue (hliteral _))
  · exact supplies_pushed (familiar_ofValue (hliteral _))
  · exact supplies_pushed (familiar_ofValue (hliteral _))
  · exact supplies_pushed (familiar_ofValue (hliteral _))
  · exact supplies_pushed (familiar_ofValue (hliteral _))
  · exact provides_loadField hi
  · exact provides_loadField hi
  · refine triple_needed fun field hfield => ?_
    exact (supplies_fieldVariable (hi.field field hfield).2).bind_and fun v hv =>
      supplies_pushed hv.1
  · refine triple_needed fun method hmethod => supplies_pushed ⟨rfl, ?_⟩
    exact List.forall_mem_singleton.2 (.inl (hi.method method hmethod).1)
  · exact provides_loadElement hvocabulary
  · exact provides_loadLength hvocabulary
  · exact provides_newArray hvocabulary
  · exact provides_newObject hvocabulary
  · exact .throw rfl

omit hvocabulary in
theorem supplies_bindLocal (index : UInt16) {invoke : Option String}
    (h : ∀ method ∈ invoke, Known base code method) :
    Triple floor (Supplies base stray slots code) (bindLocal f index invoke) fun _ =>
      Supplies base stray slots code := by
  refine (supplies_getLocal index).bind_and fun v hv => ?_
  refine Triple.bind (Q := fun _ => Supplies base stray slots code)
    (.modify fun t ht => ?_) fun _ => .pure fun _ => id
  refine ⟨ht.1.toGrounded.mono fun _ => id, { ht.1.familiar with locals := fun w hw => ?_ }⟩
  obtain hw | rfl := List.mem_or_eq_of_mem_set hw
  · exact ht.1.familiar.locals w hw
  · exact ⟨.of_known (hv.known _ List.mem_cons_self) h, fun hdelegate => (by cases hdelegate)⟩

omit hvocabulary in
theorem supplies_bindField (field : FieldRef) {method : Option String}
    (h : ∀ name ∈ method, Known base code name) :
    Triple floor (Supplies base stray slots code) (bindField field method) fun _ =>
      Supplies base stray slots code := by
  refine .modify fun t ht => ?_
  refine ⟨ht.toGrounded.mono fun _ => id, { ht.familiar with delegates := ?_ }⟩
  have hkept : ∀ entry ∈ t.delegates.filter fun entry => entry.1 != field.name,
      Known base code entry.2 := fun entry hentry =>
    ht.familiar.delegates entry (List.mem_of_mem_filter hentry)
  cases method with
  | none => exact hkept
  | some name => exact List.forall_mem_cons.2 ⟨h name rfl, hkept⟩

/-- An assignment to a variable that may be written whenever it is made. -/
theorem supplies_assigned {v : Variable} {item : Item} (h : item.Familiar base code)
    (hJ : Stable J) (hsupplies : ∀ s, J s → Supplies base stray slots code s)
    (hv : ∀ s, J s → Assignable stray s v.name) :
    Triple floor J (assign f v item) (Supplied base stray slots code) :=
  (supplies_assign hJ (fun s hs => (hsupplies s hs).toGrounded) hvocabulary h hv).mono (fun _ => id)
    fun _ t ht => (ht.2.2.supplies (hsupplies t ht.2.1).familiar).supplied

theorem provides_storeLocal : Provides base stray slots code (storeLocal f i) := by
  refine triple_needed fun index _ => supplies_popOperand.bind_and fun item hitem => ?_
  split
  · next delegate hdelegate =>
    exact (supplies_bindLocal index (hitem.delegate hdelegate).invoke).bind fun _ => supplies_nothing
  · refine (supplies_getLocal index).bind_and fun v _ => ?_
    split
    · exact supplies_nothing.mono (fun t ht => ht.1) fun _ _ => id
    · next hdelegate =>
      have hdelegate := Bool.eq_false_iff.2 hdelegate
      exact Triple.mono (supplies_assigned hvocabulary hitem
        (stable_supplies.and (stable_declares v.name)) (fun t ht => ht.1) fun t ht => .inl ht.2)
        (fun t ht => ⟨ht.1, ht.2 hdelegate⟩) fun _ _ => id

theorem supplies_storeIn {field : FieldRef} (hfield : base (Naming.fieldName field.name))
    {item : Item} (hitem : item.Familiar base code)
    (hstray : item.delegate? = none → stray (Naming.fieldName field.name)) :
    Triple floor (Supplies base stray slots code) (storeIn f field item)
      (Supplied base stray slots code) := by
  rw [storeIn]
  split
  · next delegate hdelegate =>
    exact (supplies_bindField field (hitem.delegate hdelegate).invoke).bind fun _ => supplies_nothing
  · next hdelegate =>
    refine (supplies_fieldVariable hfield).bind_and fun v hv => ?_
    exact supplies_assigned hvocabulary hitem stable_supplies (fun _ => id) fun t _ =>
      .inr (hv.2 ▸ hstray hdelegate)

omit hvocabulary in
theorem supplies_popStored :
    Triple (Supplies base stray slots code)
      (fun s => Supplies base stray slots code s ∧ ∀ name, Writes f i s.stack name → stray name)
      (popOperand f i) fun item t =>
        ((∃ rest, ∀ name, Writes f i (item :: rest) name → stray name) ∧ item.Familiar base code) ∧
          Supplies base stray slots code t := by
  refine Triple.mono (Triple.and_ok (R := fun item _ =>
    ∃ rest, ∀ name, Writes f i (item :: rest) name → stray name)
    (supplies_popOperand.mono (fun s hs => hs.1) fun _ _ => id) ?_) (fun _ => id)
    fun _ _ ht => ⟨⟨ht.1, ht.2.1⟩, ht.2.2⟩
  intro s item t hs hrun
  obtain ⟨rest, hstack, _⟩ := popOperand_ok hrun
  exact ⟨rest, hstack ▸ hs.2⟩

omit hvocabulary in
theorem supplies_popStoredPair :
    Triple (Supplies base stray slots code)
      (fun s => Supplies base stray slots code s ∧ ∀ name, Writes f i s.stack name → stray name)
      (popPair f i) fun pair t =>
        ((∃ rest, ∀ name, Writes f i (pair.2 :: pair.1 :: rest) name → stray name) ∧
          pair.1.Familiar base code ∧ pair.2.Familiar base code) ∧
            Supplies base stray slots code t := by
  refine Triple.mono (Triple.and_ok (R := fun pair _ =>
    ∃ rest, ∀ name, Writes f i (pair.2 :: pair.1 :: rest) name → stray name)
    (supplies_popPair.mono (fun s hs => hs.1) fun _ _ => id) ?_) (fun _ => id)
    fun _ _ ht => ⟨⟨ht.1, ht.2.1⟩, ht.2.2⟩
  intro s pair t hs hrun
  obtain ⟨rest, hstack, _⟩ := popPair_ok hrun
  exact ⟨rest, hstack ▸ hs.2⟩

theorem supplies_storeMember {field : FieldRef} (hfield : base field.name) {holder item : Item}
    (hholder : holder.Familiar base code) (hitem : item.Familiar base code) :
    Triple floor (Supplies base stray slots code) (storeMember f field holder item)
      (Supplied base stray slots code) := by
  refine (supplies_pair hvocabulary hholder hitem).bind_and fun staged hstaged => .pure
    fun t ht => Supplies.supplied ?_
  refine supplies_effect staged.1 rfl (List.forall_mem_cons.2 ⟨hstaged.1, ?_⟩) ht
  refine List.forall_mem_cons.2 ⟨knownValue_reference (.inl hfield), List.forall_mem_singleton.2 ?_⟩
  exact hstaged.2.coerce hvocabulary _

omit hvocabulary in
theorem knownValue_heldIndex (generation : Generation) {index : Value}
    (h : KnownValue base code index) : KnownValue base code (heldIndex generation index) := by
  unfold heldIndex
  split
  · exact fun _ hname => (by cases hname)
  · exact h

theorem provides_storeElement : Provides base stray slots code (storeElement f i) := by
  refine supplies_popTriple.bind_and fun operands hoperands => ?_
  obtain ⟨harray, hindex, hitem⟩ := hoperands
  refine (supplies_item hvocabulary harray).bind_and fun array harray => ?_
  refine (supplies_item hvocabulary (hindex.append _)).bind_and fun index hindex => ?_
  refine (supplies_item hvocabulary ((hitem.append _).append _)).bind_and fun item hitem => ?_
  refine .pure fun t ht => Supplies.supplied ?_
  simp only [List.append_assoc code] at hitem ht
  refine supplies_effect _ rfl (List.forall_mem_cons.2 ⟨?_, List.forall_mem_cons.2 ⟨?_,
    List.forall_mem_singleton.2 hitem⟩⟩) ht
  · have hknown := (harray.append index.code).append item.code
    simpa only [List.append_assoc] using hknown
  · have hknown := (knownValue_heldIndex f.generation hindex).append item.code
    simpa only [List.append_assoc] using hknown

/-- A store writes what is known to be stray, on the stack that it finds. -/
theorem provides_store (hi : Spoken base i) :
    Triple (Supplies base stray slots code)
      (fun s => Supplies base stray slots code s ∧ ∀ name, Writes f i s.stack name → stray name)
      (store f i) (Supplied base stray slots code) := by
  rw [store]
  split
  · exact (provides_storeLocal hvocabulary).mono (fun _ hs => hs.1) fun _ _ => id
  · next hcode =>
    refine triple_needed fun index hindex => supplies_popStored.bind_and fun item hitem => ?_
    obtain ⟨⟨rest, hstray⟩, hitem⟩ := hitem
    refine (supplies_parameter (J := Supplies base stray slots code) index).bind_and fun v hv => ?_
    exact supplies_assigned hvocabulary hitem stable_supplies (fun _ => id) fun _ _ =>
      .inr (hstray _ (.argument hcode hindex hv))
  · next hcode =>
    refine triple_needed fun field hfield => supplies_popStored.bind_and fun item hitem => ?_
    obtain ⟨⟨rest, hstray⟩, hitem⟩ := hitem
    refine supplies_storeIn hvocabulary (hi.field field hfield).2 hitem fun hdelegate => ?_
    exact hstray _ (.field (.static hcode hfield hdelegate))
  · next hcode =>
    refine triple_needed fun field hfield => supplies_popStoredPair.bind_and fun pair hpair => ?_
    obtain ⟨⟨rest, hstray⟩, hholder, hitem⟩ := hpair
    dsimp only
    split
    · exact supplies_storeMember hvocabulary (hi.field field hfield).1 hholder hitem
    · next hmember =>
      refine supplies_storeIn hvocabulary (hi.field field hfield).2 hitem fun hdelegate => ?_
      have hstruct : Naming.isStruct pair.1.type = false := by
        rw [hdelegate] at hmember
        simpa using hmember
      exact hstray _ (.field (.instance hcode hfield hdelegate hstruct))
  · exact (provides_storeElement hvocabulary).mono (fun _ hs => hs.1) fun _ _ => id
  · exact .throw rfl

end

end Lower

end PapyrusBackend.Lowering
