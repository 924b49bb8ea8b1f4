import PapyrusBackend.Proofs.Lowering.LookAhead
import PapyrusBackend.Proofs.Lowering.Supply

namespace PapyrusBackend.Lowering

open Source

structure Spoken (base : String → Prop) (i : Instr) : Prop where
  field : ∀ field, i.field? = some field → base field.name ∧ base (Naming.fieldName field.name)
  method : ∀ callee, i.method? = some callee →
    base callee.name ∧ base (Naming.accessed callee.name) ∧ base (Lower.staticLocation callee)

structure Vocabulary (base : String → Prop) (f : Frame) : Prop where
  /-- an unbound delegate has no name -/
  empty : base ""
  this : base "self"
  parameters : ∀ v ∈ f.parameters, base v.name
  body : ∀ i ∈ f.method.body, Spoken base i
  properties : ∀ p ∈ f.target.properties, base p.name
  coerce : ∀ type value, ∀ name ∈ operandNames (f.coerce type value),
    name ∈ operandNames value ∨ base name

variable {f : Frame} {i : Instr} {base stray : String → Prop} {slots : Variable → Prop}
  {code : List Instruction} {s t : Simulation} {floor J : Simulation → Prop}

theorem KnownValue.coerce {value : Value} (h : KnownValue base code value)
    (hvocabulary : Vocabulary base f) (type : String) :
    KnownValue base code (f.coerce type value) :=
  fun name hname => (hvocabulary.coerce type value name hname).elim (h name) .inl

theorem declares_of_append {more : List TypedName} (h : t.variables = s.variables ++ more) :
    (∀ name, s.declares name → t.declares name) ∧ ∀ v ∈ more, t.declares v.name := by
  simp only [Simulation.declares, h, List.map_append, List.mem_append]
  exact ⟨fun _ => .inl, fun v hv => .inr (List.mem_map_of_mem hv)⟩

theorem mem_of_lookup [BEq α] [LawfulBEq α] {l : List (α × β)} {a : α} {b : β}
    (h : l.lookup a = some b) : (a, b) ∈ l := by
  obtain ⟨front, back, rfl, _⟩ := List.lookup_eq_some_iff.1 h
  exact List.mem_append_right _ List.mem_cons_self

namespace Lower

theorem supplies_push {item : Item} (h : item.Familiar base code) :
    Triple floor (Supplies base stray slots code) (push item) fun _ =>
      Supplies base stray slots code :=
  .modify fun _ hs => hs.restack (List.forall_mem_cons.2 ⟨h, hs.familiar.items⟩) rfl rfl rfl
    fun _ => id

theorem supplies_underflow {n : Nat} {Q : α → Simulation → Prop} :
    Triple floor floor (underflow f i n) Q := fun _ hs _ => hs

/-- Items that are taken from the stack are familiar. -/
theorem supplies_popMany (n : Nat) :
    Triple (Supplies base stray slots code) (Supplies base stray slots code)
      (popMany f i n) fun items t => (∀ item ∈ items, item.Familiar base code) ∧
        Supplies base stray slots code t := by
  apply Triple.get_eq
  intro s hs
  by_cases hn : n ≤ s.stack.length
  · simp only [Stack.popMany?, if_pos hn]
    have hdrop : Supplies base stray slots code { s with stack := s.stack.drop n } :=
      hs.restack (fun item hitem => hs.familiar.items item (List.mem_of_mem_drop hitem)) rfl rfl rfl
        fun _ => id
    refine (Triple.set hdrop).bind fun _ => .pure fun t ht => ⟨fun item hitem => ?_, ht⟩
    exact hs.familiar.items item (List.mem_of_mem_take (List.mem_reverse.1 hitem))
  · simp only [Stack.popMany?, if_neg hn]
    exact supplies_underflow.mono (fun t ht => ht ▸ hs) fun _ _ => id

theorem supplies_popOperands (n : Nat) :
    Triple (Supplies base stray slots code) (Supplies base stray slots code)
      (popOperands f i n) fun items t => (∀ item ∈ items, item.Familiar base code) ∧
        Supplies base stray slots code t := by
  apply Triple.get
  intro s _
  dsimp only
  split
  · exact supplies_popMany _
  · exact .throw rfl

theorem supplies_popOperand :
    Triple (Supplies base stray slots code) (Supplies base stray slots code)
      (popOperand f i) fun item t => item.Familiar base code ∧
        Supplies base stray slots code t := by
  apply (supplies_popOperands 1).bind_and
  intro items hitems
  split
  · exact .pure fun _ hs => ⟨hitems _ List.mem_cons_self, hs⟩
  · exact supplies_underflow

theorem supplies_popPair :
    Triple (Supplies base stray slots code) (Supplies base stray slots code)
      (popPair f i) fun pair t => (pair.1.Familiar base code ∧ pair.2.Familiar base code) ∧
        Supplies base stray slots code t := by
  apply (supplies_popOperands 2).bind_and
  intro items hitems
  split
  · exact .pure fun _ hs => ⟨by simpa using hitems, hs⟩
  · exact supplies_underflow

theorem supplies_popTriple :
    Triple (Supplies base stray slots code) (Supplies base stray slots code)
      (popTriple f i) fun triple t =>
        (triple.1.Familiar base code ∧ triple.2.1.Familiar base code ∧
          triple.2.2.Familiar base code) ∧ Supplies base stray slots code t := by
  apply (supplies_popOperands 3).bind_and
  intro items hitems
  split
  · exact .pure fun _ hs => ⟨by simpa using hitems, hs⟩
  · exact supplies_underflow

theorem supplies_require (n : Nat) : Triple floor floor (require f i n) fun _ => floor := by
  apply Triple.get
  intro s _
  split
  · exact supplies_underflow
  · exact .pure fun _ => id

theorem supplies_getLocal (index : UInt16) :
    Triple floor (Supplies base stray slots code) (getLocal f index) fun v t =>
      FamiliarVariable base code v ∧ Supplies base stray slots code t ∧
        (v.isDelegate = false → t.declares v.name) := by
  apply Triple.get_eq
  intro s hs
  split
  · next v hv =>
    have hlocal := hs.familiar.locals v (List.mem_of_getElem? hv)
    exact .pure fun t ht => ht ▸ ⟨hlocal.1, hs, hlocal.2⟩
  · exact .throw rfl

theorem supplies_argument (code : List Instruction) (hvocabulary : Vocabulary base f)
    (index : UInt16) :
    Triple floor J (argument f index) fun item t => item.Familiar base code ∧ J t := by
  have hparameter {k : Nat} {v : Variable} (hv : f.parameters[k]? = some v) :
      (Item.ofVariable v).Familiar base code := by
    have hmem := List.mem_of_getElem? hv
    refine FamiliarVariable.of_known (.inl (hvocabulary.parameters v hmem)) ?_
    obtain ⟨p, _, rfl⟩ := List.mem_map.1 hmem
    exact fun _ h => (by cases h)
  simp only [argument]
  split
  · split
    · next v hv => exact .pure fun _ hs => ⟨hparameter hv, hs⟩
    · exact .throw rfl
  · split
    · refine .pure fun _ hs => ⟨⟨rfl, fun name hname => ?_⟩, hs⟩
      rw [List.mem_singleton.1 hname]
      exact .inl hvocabulary.this
    · split
      · next v hv => exact .pure fun _ hs => ⟨hparameter hv, hs⟩
      · exact .throw rfl

theorem supplies_parameter (index : UInt16) :
    Triple floor J (parameter f index) fun v t => argumentVariable? f index = some v ∧ J t := by
  intro s hs
  cases hv : argumentVariable? f index with
  | some v =>
    rw [parameter_run hv]
    exact ⟨rfl, hs⟩
  | none =>
    obtain ⟨reason, hrun⟩ := parameter_missing (s := s) hv
    rw [hrun]
    exact fun hlocal => absurd hlocal Bool.false_ne_true

theorem supplies_fieldVariable {field : FieldRef} (hfield : base (Naming.fieldName field.name)) :
    Triple floor (Supplies base stray slots code) (fieldVariable field) fun v t =>
      (FamiliarVariable base code v ∧ v.name = Naming.fieldName field.name) ∧
        Supplies base stray slots code t := by
  simp only [fieldVariable]
  split
  · apply Triple.get_eq
    intro s hs
    refine .pure fun t ht => ⟨⟨.of_known (.inl hfield) fun method hmethod => ?_, rfl⟩, ht ▸ hs⟩
    exact hs.familiar.delegates _ (mem_of_lookup hmethod)
  · exact .pure fun t ht => ⟨⟨.of_known (.inl hfield) fun _ h => (by cases h), rfl⟩, ht⟩

theorem supplies_warn (hJ : Stable J) (message : String) :
    Triple floor J (warn message) fun _ => J :=
  .modify fun s => hJ s _ ⟨rfl, rfl, rfl, rfl, rfl, fun _ => id⟩

theorem temporary_declares (hJ : Stable J) {s t : Simulation} {type : String} {v : Variable}
    (hs : J s) (hv : temporary type s = .ok v t) :
    v.invoke = none ∧ J t ∧ t.declares v.name := by
  cases hv
  obtain ⟨hkept, hnew⟩ := declares_of_append
    (s := s)
    (t := { s with
      temporaries := s.temporaries + 1
      «variables» := s.variables ++ [⟨temporaryName s.temporaries, type⟩] }) rfl
  exact ⟨rfl, hJ s _ ⟨rfl, rfl, rfl, rfl, rfl, hkept⟩ hs, hnew _ List.mem_cons_self⟩

theorem supplies_temporary (hJ : Stable J) (type : String) :
    Triple floor J (temporary type) fun v t => v.invoke = none ∧ J t ∧ t.declares v.name :=
  fun _ hs => temporary_declares hJ hs rfl

theorem declareNone_declares (hJ : Stable J) {s t : Simulation} {v : Variable} (hs : J s)
    (hv : declareNone s = .ok v t) : J t ∧ t.declares v.name := by
  cases hv
  dsimp only
  split
  · next hany =>
    obtain ⟨v, hv, hname⟩ := List.any_eq_true.1 hany
    exact ⟨hs, List.mem_map.2 ⟨v, hv, beq_iff_eq.1 hname⟩⟩
  · obtain ⟨hkept, hnew⟩ := declares_of_append (s := s)
      (t := { s with «variables» := s.variables ++ [noneVariable.declaration] }) rfl
    exact ⟨hJ s _ ⟨rfl, rfl, rfl, rfl, rfl, hkept⟩ hs, hnew _ List.mem_cons_self⟩

theorem supplies_takeInverted (hJ : Stable J) : Triple floor J takeInverted fun _ => J :=
  .get_eq fun s hs =>
    have hset := hJ s { s with inverted := false } ⟨rfl, rfl, rfl, rfl, rfl, fun _ => id⟩ hs
    (Triple.set hset).bind fun _ => .pure fun _ => id

section

variable (hJ : Stable J) (hground : ∀ s, J s → Grounded base stray code s)

include hJ hground

theorem supplies_materialize {opcode : Opcode} (hopcode : opcode.resultArgument? = some 0)
    {lhs rhs : Value} (hlhs : KnownValue base code lhs) (hrhs : KnownValue base code rhs) :
    Triple floor J (materialize opcode lhs rhs) fun made t => ∃ v : Variable,
      (made.value = v.value ∧ v.name ∈ assignedNames made.code) ∧
        (J t ∧ Grounded base stray (code ++ made.code) t) ∧ t.declares v.name := by
  apply (supplies_temporary hJ "Bool").bind_and
  intro v _
  refine .pure fun t ⟨ht, hv⟩ => ?_
  obtain ⟨hmade, hwritten⟩ := (hground t ht).compares hopcode hlhs hrhs hv
  exact ⟨v, ⟨rfl, hwritten⟩, ⟨ht, hmade⟩, hv⟩

/-- A staged operand is known once its code has run. -/
theorem Stages.supplies (hvocabulary : Vocabulary base f) {item : Item}
    (hitem : item.Familiar base code) {s t : Simulation} {staged : Staged}
    (h : Stages s item staged t) (hs : J s) : KnownValue base (code ++ staged.code) staged.value ∧
      J t ∧ Grounded base stray (code ++ staged.code) t := by
  have hready {value : Value} (hvalue : KnownValue base code value) :
      KnownValue base (code ++ []) value ∧ J s ∧ Grounded base stray (code ++ []) s := by
    rw [List.append_nil]
    exact ⟨hvalue, hs, hground s hs⟩
  have hknown := hitem.known
  rw [Item.mentions] at hknown
  cases h with
  | this _ => exact hready (knownValue_reference (.inl hvocabulary.this))
  | literal _ hcontent =>
    rw [hcontent] at hknown
    exact hready hknown
  | held _ hcontent =>
    rw [hcontent] at hknown
    exact hready (knownValue_reference (hknown _ List.mem_cons_self))
  | method _ hcontent =>
    rw [hcontent] at hknown
    exact hready (knownValue_reference (hknown _ List.mem_cons_self))
  | member _ hcontent hv =>
    rw [hcontent] at hknown
    obtain ⟨_, ht, hdeclared⟩ := temporary_declares hJ hs hv
    have hresult : Opcode.structGet.resultArgument? = some 0 := rfl
    refine ⟨knownValue_reference (known_append.2 (.inr List.mem_cons_self)), ht,
      (hground _ ht).result hresult ?_ (.inl hdeclared)⟩
    exact List.forall_mem_cons.2 ⟨knownValue_reference (hknown _ List.mem_cons_self),
      List.forall_mem_singleton.2 (knownValue_reference
        (hknown _ (List.mem_cons_of_mem _ List.mem_cons_self)))⟩
  | @comparison opcode lhs rhs v t _ hcontent hv =>
    rw [hcontent] at hknown
    obtain ⟨_, ht, hdeclared⟩ := temporary_declares hJ hs hv
    have hu : J { t with inverted := false } :=
      hJ t _ ⟨rfl, rfl, rfl, rfl, rfl, fun _ => id⟩ ht
    have hopcode := isSound_comparison hitem.sound hcontent
    have hlhs : KnownValue base code lhs := fun name hname =>
      hknown name (List.mem_append_left _ hname)
    have hrhs : KnownValue base code rhs := fun name hname =>
      hknown name (List.mem_append_right _ hname)
    obtain ⟨hmade, hwritten⟩ := (hground _ hu).compares hopcode hlhs hrhs hdeclared
    have hread :
        KnownValue base (code ++ [{ opcode, arguments := [v.value, lhs, rhs] }]) v.value :=
      knownValue_reference (known_append.2 (.inr hwritten))
    cases s.inverted with
    | false => exact ⟨hread, hu, hmade⟩
    | true =>
      have hnot : Opcode.not.resultArgument? = some 0 := rfl
      have hnegated := hmade.result hnot (List.forall_mem_singleton.2 hread) (.inl hdeclared)
      have hread' := hread.append [negation v.value]
      rw [List.append_assoc] at hnegated hread'
      exact ⟨hread', hu, hnegated⟩

theorem supplies_stage (hvocabulary : Vocabulary base f) {item : Item}
    (hitem : item.Familiar base code) :
    Triple floor J (stage item) fun staged t => KnownValue base (code ++ staged.code) staged.value ∧
      J t ∧ Grounded base stray (code ++ staged.code) t :=
  triple_stages fun _ _ _ hs hstages => hstages.supplies hJ hground hvocabulary hitem hs

theorem supplies_stagePair (hvocabulary : Vocabulary base f) {a b : Item}
    (ha : a.Familiar base code) (hb : b.Familiar base code) :
    Triple floor J (stagePair a b) fun staged t =>
      (KnownValue base (code ++ staged.1) staged.2.1 ∧
        KnownValue base (code ++ staged.1) staged.2.2) ∧
      J t ∧ Grounded base stray (code ++ staged.1) t := by
  apply (supplies_stage hJ hground hvocabulary ha).bind_and
  intro first hfirst
  have hrest := hb.append first.code
  refine (supplies_stage (hJ.and stable_grounded) (fun _ ht => ht.2) hvocabulary hrest).bind_and ?_
  intro second hsecond
  refine .pure fun t ht => ?_
  simp only [← List.append_assoc]
  exact ⟨⟨hfirst.append second.code, hsecond⟩, ht.1.1, ht.2⟩

theorem supplies_stageAll (hvocabulary : Vocabulary base f) {items : List Item}
    (hitems : ∀ item ∈ items, item.Familiar base code) :
    Triple floor J (stageAll items) fun staged t =>
      (∀ value ∈ staged.2, KnownValue base (code ++ staged.1) value) ∧
      J t ∧ Grounded base stray (code ++ staged.1) t := by
  induction items generalizing J code with
  | nil =>
    refine .pure fun t ht => ⟨fun value hvalue => absurd hvalue List.not_mem_nil, ht, ?_⟩
    rw [List.append_nil]
    exact hground t ht
  | cons item items ih =>
    obtain ⟨hitem, hitems⟩ := List.forall_mem_cons.1 hitems
    apply (supplies_stage hJ hground hvocabulary hitem).bind_and
    intro first hfirst
    have hrest : ∀ item ∈ items, item.Familiar base (code ++ first.code) := fun item hmem =>
      (hitems item hmem).append first.code
    refine (ih (hJ.and stable_grounded) (fun _ ht => ht.2) hrest).bind_and ?_
    intro staged hstaged
    refine .pure fun t ht => ?_
    simp only [← List.append_assoc]
    exact ⟨List.forall_mem_cons.2 ⟨hfirst.append staged.1, hstaged⟩, ht.1.1, ht.2⟩

theorem supplies_assign (hvocabulary : Vocabulary base f) {v : Variable} {item : Item}
    (hitem : item.Familiar base code) (hv : ∀ s, J s → Assignable stray s v.name) :
    Triple floor J (assign f v item) fun emitted t => v.name ∈ assignedNames emitted ∧
      J t ∧ Grounded base stray (code ++ emitted) t := by
  apply (supplies_stage hJ hground hvocabulary hitem).bind_and
  intro staged hstaged
  refine .pure fun t ht => ⟨?_, ht.1, ?_⟩
  · rw [assignedNames_append]
    exact List.mem_append_right _ List.mem_cons_self
  · have hassign : Opcode.assign.resultArgument? = some 0 := rfl
    rw [← List.append_assoc]
    refine ht.2.result hassign (v := v) (fun value hvalue => ?_) (hv t ht.1)
    rw [List.mem_singleton.1 hvalue]
    exact hstaged.coerce hvocabulary v.type

theorem supplies_assignAll (hvocabulary : Vocabulary base f) {vs : List Variable}
    {items : List Item} (hitems : ∀ item ∈ items, item.Familiar base code)
    (hvs : ∀ s, J s → ∀ v ∈ vs, Assignable stray s v.name) :
    Triple floor J (assignAll f vs items) fun emitted t =>
      (vs.length = items.length → ∀ v ∈ vs, v.name ∈ assignedNames emitted) ∧
      J t ∧ Grounded base stray (code ++ emitted) t := by
  induction vs generalizing J code items with
  | nil =>
    refine .pure fun t ht => ⟨fun _ v hv => absurd hv List.not_mem_nil, ht, ?_⟩
    rw [List.append_nil]
    exact hground t ht
  | cons v vs ih =>
    cases items with
    | nil =>
      refine .pure fun t ht => ⟨fun hlength => absurd hlength (Nat.succ_ne_zero _), ht, ?_⟩
      rw [List.append_nil]
      exact hground t ht
    | cons item items =>
      obtain ⟨hitem, hitems⟩ := List.forall_mem_cons.1 hitems
      apply (supplies_assign hJ hground hvocabulary hitem fun s hs =>
        hvs s hs v List.mem_cons_self).bind_and
      intro first hfirst
      have hrest : ∀ item ∈ items, item.Familiar base (code ++ first) := fun item hmem =>
        (hitems item hmem).append first
      refine (ih (hJ.and stable_grounded) (fun _ ht => ht.2) hrest fun s hs w hw =>
        hvs s hs.1 w (List.mem_cons_of_mem v hw)).bind_and ?_
      intro others hothers
      refine .pure fun t ht => ⟨fun hlength => ?_, ht.1.1, ?_⟩
      · rw [assignedNames_append]
        refine List.forall_mem_cons.2 ⟨List.mem_append_left _ hfirst, fun w hw => ?_⟩
        exact List.mem_append_right _ (hothers (Nat.succ.inj hlength) w hw)
      · rw [← List.append_assoc]
        exact ht.2

end

theorem supplies_freshVariables (hJ : Stable J) (types : List String) :
    Triple floor J (freshVariables types) fun vs t =>
      (vs.length = types.length ∧ ∀ v ∈ vs, v.invoke = none) ∧
        J t ∧ ∀ v ∈ vs, t.declares v.name := by
  induction types generalizing J with
  | nil => exact .pure fun t ht => ⟨⟨rfl, by simp⟩, ht, by simp⟩
  | cons type types ih =>
    apply (supplies_temporary hJ type).bind_and
    intro v hv
    refine (ih (hJ.and (stable_declares v.name))).bind_and ?_
    rintro vs ⟨hlength, hvs⟩
    refine .pure fun t ht => ⟨⟨congrArg Nat.succ hlength, ?_⟩, ht.1.1, ?_⟩
    · exact List.forall_mem_cons.2 ⟨hv, hvs⟩
    · exact List.forall_mem_cons.2 ⟨ht.1.2, ht.2⟩

def JoinSlot (slots : Variable → Prop) (result : Option (List Variable)) (v : Variable) : Prop :=
  slots v ∨ v.invoke = none ∧ v ∈ result.getD []

theorem supplies_joinVariables (offset : UInt32) (items : List Item) :
    Triple floor (Supplies base stray slots code) (joinVariables offset items)
      fun result t =>
        (∀ vs, result = some vs → vs.length = items.length ∧ ∀ v ∈ vs, JoinSlot slots result v) ∧
          Supplies base stray (JoinSlot slots result) code t ∧
            ∀ v ∈ result.getD [], t.declares v.name := by
  apply Triple.get_eq
  intro s hs
  split
  · next vs hlookup =>
    have hjoin := hs.familiar.joins _ (mem_of_lookup hlookup)
    split
    · next hlength =>
      refine .pure fun t ht => ?_
      subst ht
      refine ⟨fun vs' hvs' => ?_, hs.mono_slots fun v => .inl, fun v hv => (hjoin v hv).2⟩
      cases hvs'
      exact ⟨hlength, fun v hv => .inl (hjoin v hv).1⟩
    · refine Triple.mono (I := Supplies base stray slots code)
        ((supplies_warn stable_supplies _).bind fun _ => .pure fun t ht => ?_)
        (fun t ht => ht ▸ hs) fun _ _ => id
      exact ⟨fun _ h => (by cases h), ht.mono_slots fun v => .inl,
        fun v hv => absurd hv List.not_mem_nil⟩
  · refine Triple.mono (I := Supplies base stray slots code) ?_ (fun t ht => ht ▸ hs)
      fun _ _ => id
    refine (supplies_freshVariables stable_supplies _).bind_and ?_
    rintro vs ⟨hlength, hvs⟩
    have hnew : ∀ v ∈ vs, JoinSlot slots (some vs) v := fun v hv => .inr ⟨hvs v hv, hv⟩
    refine (Triple.modify (Q := fun _ t =>
      Supplies base stray (JoinSlot slots (some vs)) code t ∧
        ∀ v ∈ vs, t.declares v.name) fun t ht => ?_).bind fun _ => .pure fun t ht => ?_
    · have hkept : Supplies base stray (JoinSlot slots (some vs)) code t :=
        ht.1.mono_slots fun v => .inl
      refine ⟨⟨hkept.toGrounded.mono fun _ => id, { hkept.familiar with joins := ?_ }⟩, ht.2⟩
      refine List.forall_mem_cons.2 ⟨fun v hv => ⟨hnew v hv, ht.2 v hv⟩, hkept.familiar.joins⟩
    · refine ⟨fun vs' hvs' => ?_, ht⟩
      cases hvs'
      exact ⟨by rw [hlength, List.length_map], hnew⟩

theorem familiar_joined {vs : List Variable} (h : ∀ v ∈ vs, FamiliarVariable base code v) :
    ∀ item ∈ joined vs, item.Familiar base code := by
  intro item hitem
  obtain ⟨v, hv, rfl⟩ := List.mem_map.1 (List.mem_reverse.1 hitem)
  exact h v hv

section

variable (hvocabulary : Vocabulary base f)

include hvocabulary

/-- Once items have been carried over, the variables of their join are known. -/
theorem supplies_assignJoin (hslots : ∀ v, slots v → FamiliarVariable base code v) {items : List Item}
    (hitems : ∀ item ∈ items, item.Familiar base code) {vs : List Variable}
    (hlength : vs.length = items.length) (hvs : ∀ v ∈ vs, JoinSlot slots (some vs) v)
    (keep : Bool) :
    Triple floor
      (fun t => Supplies base stray (JoinSlot slots (some vs)) code t ∧
        ∀ v ∈ vs, t.declares v.name)
      (do
        modify fun s => { s with stack := [] }
        let carried ← assignAll f vs items
        if keep then modify fun s => { s with stack := joined vs }
        return carried)
      fun carried => Served base stray (code ++ carried) := by
  refine Triple.bind (Q := fun _ t => Supplies base stray (JoinSlot slots (some vs)) code t ∧
    ∀ v ∈ vs, t.declares v.name) (.modify fun t ht => ?_) fun _ => ?_
  · exact ⟨ht.1.restack (fun item hitem => absurd hitem List.not_mem_nil) rfl rfl rfl fun _ => id,
      ht.2⟩
  have hstable : Stable fun t => ∀ v ∈ vs, t.declares v.name :=
    fun _ _ h ht v hv => h.declares _ (ht v hv)
  refine (supplies_assignAll (stable_supplies.and hstable) (fun t ht => ht.1.toGrounded)
    hvocabulary hitems fun t ht v hv => .inl (ht.2 v hv)).bind_and ?_
  intro carried hcarried
  have hfamiliar : ∀ v, JoinSlot slots (some vs) v → FamiliarVariable base (code ++ carried) v := by
    rintro v (hv | ⟨hinvoke, hv⟩)
    · exact (hslots v hv).append carried
    · refine .of_known (known_append.2 (.inr (hcarried hlength v hv))) ?_
      rw [hinvoke]
      exact fun _ h => (by cases h)
  have hserved {t : Simulation}
      (ht : (Supplies base stray (JoinSlot slots (some vs)) code t ∧
        ∀ v ∈ vs, t.declares v.name) ∧ Grounded base stray (code ++ carried) t) :
      Served base stray (code ++ carried) t :=
    (ht.2.supplies ht.1.1.familiar).mono_slots hfamiliar
  cases keep with
  | false => exact .pure fun t ht => hserved ht
  | true =>
    have hjoined := familiar_joined fun v hv => hfamiliar v (hvs v hv)
    refine Triple.bind (Q := fun _ => Served base stray (code ++ carried))
      (.modify fun t ht => ?_) fun _ => .pure fun _ => id
    exact (hserved ht).restack hjoined rfl rfl rfl fun _ => id

theorem supplies_spill (hslots : ∀ v, slots v → FamiliarVariable base code v) (offset : UInt32)
    (keep : Bool) :
    Triple floor (Supplies base stray slots code) (spill f offset keep) fun carried =>
      Served base stray (code ++ carried) := by
  have hnothing {t : Simulation} {slots : Variable → Prop}
      (hslots : ∀ v, slots v → FamiliarVariable base code v)
      (ht : Supplies base stray slots code t) :
      Served base stray (code ++ []) t := by
    rw [List.append_nil]
    exact ht.mono_slots hslots
  apply Triple.get
  intro s hs
  have hitems : ∀ item ∈ s.stack.reverse, item.Familiar base code := fun item hitem =>
    hs.familiar.items item (List.mem_reverse.1 hitem)
  dsimp only
  split
  · exact .pure fun t ht => hnothing hslots ht
  · refine (supplies_joinVariables offset _).bind_and ?_
    intro result hresult
    cases result with
    | none =>
      refine .pure fun t ht => hnothing (fun v hv => hv.elim (hslots v) ?_) ht.1
      exact fun h => absurd h.2 List.not_mem_nil
    | some vs =>
      obtain ⟨hlength, hvs⟩ := hresult vs rfl
      exact supplies_assignJoin hvocabulary hslots hitems hlength hvs keep

theorem supplies_enter (offset : UInt32) :
    Triple floor (Served base stray code) (enter f offset) fun entry =>
      Served base stray (code ++ entry) := by
  apply Triple.get_eq
  intro s hs
  split
  · refine .pure fun t ht => ?_
    rw [List.append_nil, ht]
    exact hs
  · next vs hlookup =>
    have hvs : ∀ v ∈ vs, FamiliarVariable base code v := fun v hv =>
      (hs.familiar.joins _ (mem_of_lookup hlookup) v hv).1
    split
    · have hjoined : Served base stray code { s with stack := joined vs } :=
        hs.restack (familiar_joined hvs) rfl rfl rfl fun _ => id
      refine Triple.bind (Q := fun _ => Served base stray code) (.set hjoined)
        fun _ => .pure fun t ht => ?_
      rw [List.append_nil]
      exact ht
    · exact (supplies_spill hvocabulary (fun _ => id) offset true).mono (fun t ht => ht ▸ hs)
        fun _ _ => id

end

end Lower

def Destination.Opens (stray : String → Prop) (d : Destination) (name : String) : Prop :=
  stray name ∨ ∃ v, d = .store v ∧ v.name = name

/-- A destination may be written, and the code that it runs before a result is copied to it reads
and writes as it should. -/
structure Prepared (base stray : String → Prop) (code : List Instruction) (d : Destination)
    (t : Simulation) : Prop where
  written : Assignable (d.Opens stray) t d.written.name
  before : Grounded base stray (code ++ d.before) t
  pushed : ∀ v, d = .push v → v.invoke = none
  member : ∀ v holder field before, d = .member v holder field before →
    KnownValue base (code ++ before) holder ∧ base field
  stored : ∀ v, d = .store v → t.skipNext = true

theorem stable_prepared {d : Destination} : Stable (Prepared base stray code d) := fun _ _ h hs =>
  { written := hs.written.mono h.declares
    before := hs.before.mono h.declares
    pushed := hs.pushed
    member := hs.member
    stored := fun v hv => h.skipNext.trans (hs.stored v hv) }

theorem Supplies.opens (h : Supplies base stray slots code t) (d : Destination) :
    Supplies base (d.Opens stray) slots code t :=
  h.mono_stray fun _ hname => .inr (.inl hname)

namespace Lower

section

variable (hvocabulary : Vocabulary base f)

/-- The store that follows is taken care of. -/
theorem prepared_store {v : Variable} (ht : Supplies base stray slots code t)
    (hskip : t.skipNext = true) :
    Supplies base stray slots code t ∧ Prepared base stray code (.store v) t :=
  ⟨ht, .inr (.inr ⟨v, rfl, rfl⟩), ht.toGrounded.at_once, fun _ h => (by cases h),
    fun _ _ _ _ h => (by cases h), fun _ _ => hskip⟩

include hvocabulary

theorem supplies_destination (type : String) :
    Triple floor (Supplies base stray slots code) (destination f type) fun d t =>
      Supplies base stray slots code t ∧ Prepared base stray code d t := by
  apply triple_directs
  intro s d t hs hdirects
  cases hdirects with
  | discard _ hv =>
    obtain ⟨ht, hdeclared⟩ := declareNone_declares stable_supplies hs hv
    exact ⟨ht, .inl hdeclared, ht.toGrounded.at_once, fun _ h => (by cases h),
      fun _ _ _ _ h => (by cases h), fun _ h => (by cases h)⟩
  | push hv =>
    obtain ⟨hplain, ht, hdeclared⟩ := temporary_declares stable_supplies hs hv
    refine ⟨ht, .inl hdeclared, ht.toGrounded.at_once, fun w hw => ?_,
      fun _ _ _ _ h => (by cases h), fun _ h => (by cases h)⟩
    cases hw
    exact hplain
  | store _ _ => exact prepared_store (hs.restack hs.familiar.items rfl rfl rfl fun _ => id) rfl
  | field _ _ _ hstack _ =>
    have hitems := List.forall_mem_cons.1 (hstack ▸ hs.familiar.items)
    exact prepared_store (hs.restack hitems.2 rfl rfl rfl fun _ => id) rfl
  | @member _ _ _ rest _ _ _ _ hfollows _ hfield hstack _ hstage hv =>
    have hitems := List.forall_mem_cons.1 (hstack ▸ hs.familiar.items)
    have hrest : Supplies base stray slots code { s with stack := rest, skipNext := true } :=
      hs.restack hitems.2 rfl rfl rfl fun _ => id
    obtain ⟨hstaged, ht, hground⟩ := (stage_stages hstage).supplies stable_supplies
      (fun _ ht => ht.toGrounded) hvocabulary hitems.1 hrest
    obtain ⟨_, ⟨hu, hground'⟩, hdeclared⟩ :=
      temporary_declares (stable_supplies.and stable_grounded) ⟨ht, hground⟩ hv
    refine ⟨hu, .inl hdeclared, hground', fun _ h => (by cases h), ?_, fun _ h => (by cases h)⟩
    intro w value name before hd
    cases hd
    exact ⟨hstaged,
      ((hvocabulary.body _ (List.mem_of_getElem? hfollows.next)).field _ hfield).1⟩

omit hvocabulary in
theorem Known.behind {middle before : List Instruction} {name : String}
    (h : Known base (code ++ before) name) : Known base (code ++ middle ++ before) name := by
  rw [known_append] at h ⊢
  exact h.imp_left fun h => h.append middle

omit hvocabulary in
/-- What remains to be done once code has written the result. -/
theorem supplies_finish {d : Destination} {middle : List Instruction}
    (hwritten : EndsAssigning middle d.written.name) :
    Triple floor
      (fun t => Supplies base (d.Opens stray) slots (code ++ middle) t ∧
        Prepared base stray code d t)
      (finish d) fun rest => Supplied base stray slots code (middle ++ rest) := by
  have hknown : Known base (code ++ middle) d.written.name := known_append.2 (.inr hwritten.mem)
  -- only a store opens anything
  have hclosed (hd : ∀ v, d ≠ .store v) {code : List Instruction} {t : Simulation}
      (ht : Supplies base (d.Opens stray) slots code t) : Supplies base stray slots code t :=
    ht.mono_stray fun name hname =>
      .inr (hname.resolve_right fun ⟨v, hv, _⟩ => hd v hv)
  cases d with
  | store v =>
    refine .pure fun t ht => ?_
    rw [List.append_nil]
    refine ht.1.mono_stray fun name hname => .inr (hname.imp_right ?_)
    rintro ⟨_, ⟨⟩, rfl⟩
    exact ⟨ht.2.stored v rfl, hwritten⟩
  | discard v =>
    refine .pure fun t ht => ?_
    rw [List.append_nil]
    exact (hclosed (fun _ h => (by cases h)) ht.1).supplied
  | push v =>
    refine Triple.bind (Q := fun _ => Supplies base stray slots (code ++ middle))
      (.modify fun t ht => ?_) fun _ => .pure fun t ht => ?_
    · have hv : FamiliarVariable base (code ++ middle) v := by
        refine .of_known hknown ?_
        rw [ht.2.pushed v rfl]
        exact fun _ h => (by cases h)
      have hitem : (Item.result v).Familiar base (code ++ middle) := ⟨hv.sound, hv.known⟩
      exact (hclosed (fun _ h => (by cases h)) ht.1).restack
        (List.forall_mem_cons.2 ⟨hitem, ht.1.familiar.items⟩) rfl rfl rfl fun _ => id
    · rw [List.append_nil]
      exact ht.supplied
  | member v holder field before =>
    refine .pure fun t ht => Supplies.supplied ?_
    have hmiddle := hclosed (fun _ h => (by cases h)) ht.1
    obtain ⟨hholder, hfield⟩ := ht.2.member v holder field before rfl
    have hbefore := ht.2.before.behind hmiddle.toGrounded
    rw [← List.append_assoc, ← List.append_assoc]
    refine (hbefore.emit (fun name hname => ?_) fun _ h => absurd h List.not_mem_nil).supplies ?_
    · simp only [Instruction.reads, Instruction.operands, Instruction.structSet,
        Opcode.resultArgument?, List.append_nil, List.flatMap_cons, List.flatMap_nil,
        List.mem_append] at hname
      obtain hname | hname | hname := hname
      · exact Known.behind (hholder name hname)
      · exact .inl (List.mem_singleton.1 hname ▸ hfield)
      · exact (List.mem_singleton.1 hname ▸ hknown).append before
    · exact hmiddle.familiar.append before

omit hvocabulary in
/-- Code that has written the result, and what remains to be done. -/
theorem supplies_finished {d : Destination} {emitted : List Instruction}
    (hwritten : EndsAssigning emitted d.written.name)
    (hJ : ∀ t, J t → Supplies base (d.Opens stray) slots (code ++ emitted) t ∧
      Prepared base stray code d t) :
    Triple floor J (do return emitted ++ (← finish d)) (Supplied base stray slots code) := by
  have hfinish : Triple floor J (finish d) fun rest =>
      Supplied base stray slots code (emitted ++ rest) :=
    (supplies_finish hwritten).mono hJ fun _ _ => id
  exact hfinish.bind fun rest => .pure fun _ => id

omit hvocabulary in
/-- An instruction writes the destination. -/
theorem supplies_written {d : Destination} {make : Value → Instruction}
    (hassigned : ∀ v : Variable, (make v.value).assigned = [v.name])
    (hreads : ∀ v : Variable, ∀ name ∈ (make v.value).reads, Known base code name)
    (ht : Supplies base stray slots code t ∧ Prepared base stray code d t) :
    Supplies base (d.Opens stray) slots (code ++ [make d.value]) t ∧
      Prepared base stray code d t := by
  have hopens := ht.1.opens d
  refine ⟨(hopens.toGrounded.emit (hreads d.written) fun name hname => ?_).supplies
    hopens.familiar, ht.2⟩
  rw [hassigned, List.mem_singleton] at hname
  exact hname ▸ ht.2.written

/-- A result that is written once code has run. -/
theorem supplies_produce (type : String) {emitted : List Instruction} {make : Value → Instruction}
    (hassigned : ∀ v : Variable, (make v.value).assigned = [v.name])
    (hreads : ∀ v : Variable, ∀ name ∈ (make v.value).reads, Known base (code ++ emitted) name) :
    Triple floor (Supplies base stray slots (code ++ emitted)) (produce f type emitted make)
      (Supplied base stray slots code) := by
  refine (supplies_destination hvocabulary type).bind fun d => ?_
  have hfinish : Triple floor
      (fun t => Supplies base stray slots (code ++ emitted) t ∧
        Prepared base stray (code ++ emitted) d t)
      (finish d) fun rest =>
        Supplied base stray slots (code ++ emitted) ([make d.value] ++ rest) :=
    (supplies_finish (endsAssigning_singleton (hassigned d.written))).mono
      (fun t => supplies_written hassigned hreads) fun _ _ => id
  exact hfinish.bind fun rest => .pure fun t ht => ht.append_left

end

end Lower

end PapyrusBackend.Lowering
