import PapyrusBackend.Proofs.Lowering.SupplyStep

namespace PapyrusBackend.Lowering

open Source

variable {f : Frame} {i : Instr} {base stray : String → Prop} {slots : Variable → Prop}
  {code : List Instruction} {s t : Simulation} {floor J : Simulation → Prop}

namespace Lower

section

variable (hvocabulary : Vocabulary base f)

/-- The last of a chain of texts is the destination, and those before it are declared on the way. -/
theorem supplies_joinTexts (hJ : Stable J)
    (hground : ∀ s, J s → Grounded base stray code s) {v : Variable}
    (hv : ∀ s, J s → Assignable stray s v.name) {first : Value}
    (hfirst : KnownValue base code first) {values : List Value}
    (hvalues : ∀ value ∈ values, KnownValue base code value) :
    Triple floor J (joinTexts v.value first values) fun joined t =>
      (values ≠ [] → EndsAssigning joined v.name) ∧
        J t ∧ Grounded base stray (code ++ joined) t := by
  have hstrcat : Opcode.strcat.resultArgument? = some 0 := rfl
  induction values generalizing J code first with
  | nil => exact .pure fun t ht => ⟨fun hne => absurd rfl hne, ht, (hground t ht).at_once⟩
  | cons second rest ih =>
    obtain ⟨hsecond, hrest⟩ := List.forall_mem_cons.1 hvalues
    have harguments : ∀ value ∈ [first, second], KnownValue base code value :=
      List.forall_mem_cons.2 ⟨hfirst, List.forall_mem_singleton.2 hsecond⟩
    cases rest with
    | nil =>
      refine .pure fun t ht => ⟨fun _ => ?_, ht, (hground t ht).result hstrcat harguments (hv t ht)⟩
      exact endsAssigning_singleton (assigned_result hstrcat v _)
    | cons third rest =>
      refine (supplies_temporary hJ "String").bind_and fun w _ => ?_
      have hgrounded (s : Simulation) (hs : J s ∧ s.declares w.name) :
          Grounded base stray
            (code ++ [{ opcode := .strcat, arguments := [w.value, first, second] }]) s :=
        (hground s hs.1).result hstrcat harguments (.inl hs.2)
      have hw : KnownValue base
          (code ++ [{ opcode := .strcat, arguments := [w.value, first, second] }]) w.value :=
        knownValue_reference (known_append.2 (.inr List.mem_cons_self))
      refine (ih (hJ.and (stable_declares w.name)) hgrounded (fun s hs => hv s hs.1) hw
        fun value hvalue => (hrest value hvalue).append _).bind_and fun joined hjoined => ?_
      refine .pure fun t ht => ⟨fun _ => ?_, ht.1.1, ?_⟩
      · exact (hjoined (List.cons_ne_nil _ _)).append_left [_]
      · have hgrounded := ht.2
        rwa [List.append_assoc, List.singleton_append] at hgrounded

include hvocabulary

theorem supplies_concat {items : List Item} (hitems : ∀ item ∈ items, item.Familiar base code) :
    Triple floor (Supplies base stray slots code) (concat f items)
      (Supplied base stray slots code) := by
  refine (supplies_destination hvocabulary "String").bind fun d => ?_
  have hstable : Stable fun t => Supplies base stray slots code t ∧
      Prepared base stray code d t := stable_supplies.and stable_prepared
  refine (supplies_stageAll hstable (fun t ht => ht.1.toGrounded) hvocabulary hitems).bind_and
    fun staged hstaged => ?_
  have hground (t : Simulation)
      (ht : (Supplies base stray slots code t ∧ Prepared base stray code d t) ∧
        Grounded base stray (code ++ staged.1) t) :
      Grounded base (d.Opens stray) (code ++ staged.1) t :=
    ht.2.mono_stray fun _ hname => .inr (.inl hname)
  -- whatever joins the texts, it has written the destination
  have hrest {joined : List Instruction} (hwritten : EndsAssigning joined d.written.name) :
      Triple floor
        (fun t => ((Supplies base stray slots code t ∧ Prepared base stray code d t) ∧
            Grounded base stray (code ++ staged.1) t) ∧
              Grounded base (d.Opens stray) (code ++ staged.1 ++ joined) t)
        (do return staged.1 ++ joined ++ (← finish d)) (Supplied base stray slots code) := by
    refine supplies_finished (hwritten.append_left staged.1) fun t ht => ?_
    rw [List.append_assoc] at ht
    exact ⟨ht.2.supplies ht.1.1.1.familiar, ht.1.1.2⟩
  have hcoerced : ∀ value ∈ staged.2.map (f.coerce "String"),
      KnownValue base (code ++ staged.1) value := by
    intro value hvalue
    obtain ⟨value, hmem, rfl⟩ := List.mem_map.1 hvalue
    exact (hstaged value hmem).coerce hvocabulary "String"
  have hassign {value : Value} (hvalue : KnownValue base (code ++ staged.1) value) (t : Simulation)
      (ht : (Supplies base stray slots code t ∧ Prepared base stray code d t) ∧
        Grounded base stray (code ++ staged.1) t) :
      Grounded base (d.Opens stray) (code ++ staged.1 ++ [.assign d.written.name value]) t := by
    have hopcode : Opcode.assign.resultArgument? = some 0 := rfl
    exact (hground t ht).result hopcode (v := d.written) (List.forall_mem_singleton.2 hvalue)
      ht.1.2.written
  have hassigned (value : Value) : EndsAssigning [.assign d.written.name value] d.written.name :=
    endsAssigning_singleton rfl
  dsimp only
  split
  · refine Triple.mono (hrest (hassigned _)) (fun t ht => ⟨ht, hassign ?_ t ht⟩) fun _ _ => id
    exact fun _ hname => (by cases hname)
  · next only honly =>
    refine Triple.mono (hrest (hassigned _)) (fun t ht => ⟨ht, hassign ?_ t ht⟩) fun _ _ => id
    exact hcoerced only (honly ▸ List.mem_cons_self)
  · next first rest hne hvalues =>
    rw [hvalues] at hcoerced
    obtain ⟨hfirst, hothers⟩ := List.forall_mem_cons.1 hcoerced
    refine (supplies_joinTexts (hstable.and stable_grounded) hground
      (fun t ht => ht.1.2.written) hfirst hothers).bind_and fun joined hjoined => ?_
    exact hrest (hjoined hne)

omit hvocabulary in
/-- A comparison that is made at once, and its negation if that is wanted. -/
theorem supplies_compared {d : Destination} {lhs rhs : Value} (hlhs : KnownValue base code lhs)
    (hrhs : KnownValue base code rhs) (inequality : Bool)
    (ht : Supplies base stray slots code t ∧ Prepared base stray code d t) :
    Supplies base (d.Opens stray) slots
      (code ++ { opcode := .cmpEq, arguments := [d.value, lhs, rhs] } ::
        (if inequality then [negation d.value] else [])) t := by
  have hcmpEq : Opcode.cmpEq.resultArgument? = some 0 := rfl
  have hnot : Opcode.not.resultArgument? = some 0 := rfl
  have hopens := ht.1.opens d
  have hmade := hopens.toGrounded.result hcmpEq (v := d.written)
    (List.forall_mem_cons.2 ⟨hlhs, List.forall_mem_singleton.2 hrhs⟩) ht.2.written
  cases inequality with
  | false => exact hmade.supplies hopens.familiar
  | true =>
    have hread : KnownValue base
        (code ++ [{ opcode := .cmpEq, arguments := [d.written.value, lhs, rhs] }])
        d.written.value :=
      knownValue_reference (known_append.2 (.inr List.mem_cons_self))
    have hnegated := hmade.result hnot (v := d.written) (List.forall_mem_singleton.2 hread)
      ht.2.written
    rw [List.append_assoc] at hnegated
    exact hnegated.supplies hopens.familiar

omit hvocabulary in
theorem endsAssigning_compared (d : Destination) (lhs rhs : Value) (inequality : Bool) :
    EndsAssigning ({ opcode := .cmpEq, arguments := [d.value, lhs, rhs] } ::
      (if inequality then [negation d.value] else [])) d.written.name := by
  have hcmpEq : Opcode.cmpEq.resultArgument? = some 0 := rfl
  have hnot : Opcode.not.resultArgument? = some 0 := rfl
  cases inequality with
  | false => exact endsAssigning_singleton (assigned_result hcmpEq d.written _)
  | true => exact (endsAssigning_singleton (assigned_result hnot d.written _)).append_left [_]

theorem supplies_equality {items : List Item} (hitems : ∀ item ∈ items, item.Familiar base code)
    (inequality : Bool) :
    Triple floor (Supplies base stray slots code) (equality f items inequality)
      (Supplied base stray slots code) := by
  have hinvert {J : Simulation → Prop} (hJ : Stable J) (inverted : Bool) :
      Triple floor J (modify fun s => { s with inverted }) fun _ => J :=
    .modify fun t => hJ t _ ⟨rfl, rfl, rfl, rfl, rfl, fun _ => id⟩
  simp only [equality]
  split
  · next a b =>
    obtain ⟨ha, hb⟩ := List.forall_mem_cons.1 hitems
    refine (hinvert stable_supplies inequality).bind fun _ => ?_
    refine (supplies_pair hvocabulary ha (hb b List.mem_cons_self)).bind_and
      fun staged hstaged => ?_
    obtain ⟨staging, lhs, rhs⟩ := staged
    have hpending : Triple floor (Supplies base stray slots (code ++ staging))
        (do
          modify fun s => { s with skipTo := f.next?.map Instr.offset }
          push { content := .comparison .cmpEq lhs rhs, type := "Bool" }
          return staging : Lower (List Instruction)) (Supplied base stray slots code) := by
      refine Triple.bind (Q := fun _ => Supplies base stray slots (code ++ staging))
        (.modify fun t => stable_supplies t _ ⟨rfl, rfl, rfl, rfl, rfl, fun _ => id⟩) fun _ => ?_
      refine (supplies_push ⟨rfl, fun name hname => ?_⟩).bind fun _ => .pure fun _ =>
        Supplies.supplied
      exact (List.mem_append.1 hname).elim (hstaged.1 name) (hstaged.2 name)
    dsimp only
    split
    · exact hpending
    · split
      · refine (supplies_destination hvocabulary "Bool").bind fun d => ?_
        refine (hinvert (stable_supplies.and stable_prepared) false).bind fun _ => ?_
        have hfinish : Triple floor
            (fun t => Supplies base stray slots (code ++ staging) t ∧
              Prepared base stray (code ++ staging) d t)
            (finish d) fun rest => Supplied base stray slots (code ++ staging)
              ({ opcode := .cmpEq, arguments := [d.value, lhs, rhs] } ::
                (if inequality then [negation d.value] else []) ++ rest) :=
          (supplies_finish (endsAssigning_compared d lhs rhs inequality)).mono
            (fun t ht => ⟨supplies_compared hstaged.1 hstaged.2 inequality ht, ht.2⟩)
            fun _ _ => id
        refine hfinish.bind fun rest => .pure fun t ht => ?_
        have happended := ht.append_left
        cases inequality <;> simpa using happended
      · exact hpending
  · exact .throw rfl

theorem supplies_propertyName (callee : MethodRef) (hcallee : base (Naming.accessed callee.name))
    (location : Location) :
    Triple floor J (propertyName f callee location) fun name t => base name ∧ J t := by
  simp only [propertyName]
  split
  · split
    · next p hp =>
      refine .pure fun t ht => ⟨hvocabulary.properties p ?_, ht⟩
      have hmem {name : String} (h : f.target.property? name = some p) :
          p ∈ f.target.properties := by
        rw [ObjectType.property?, Option.or_eq_some_iff] at h
        obtain h | ⟨_, h⟩ := h
        · exact List.mem_of_find?_eq_some h
        · exact List.mem_of_find?_eq_some h
      obtain h | ⟨_, h⟩ := Option.or_eq_some_iff.1 hp
      · exact hmem h
      · exact hmem h
    · exact .throw rfl
  · exact .pure fun t ht => ⟨hcallee, ht⟩

theorem supplies_property (callee : MethodRef) (hcallee : base (Naming.accessed callee.name))
    {items : List Item} (hitems : ∀ item ∈ items, item.Familiar base code) {location : Location}
    (hlocation : KnownValue base code location.value) :
    Triple floor (Supplies base stray slots code) (property f callee items location)
      (Supplied base stray slots code) := by
  rw [property]
  split
  · exact .throw rfl
  · refine (supplies_propertyName (J := Supplies base stray slots code) hvocabulary callee
      hcallee location).bind_and fun name hname => ?_
    split
    · have hread (v : Variable) (other : String) (hother : other ∈ Instruction.reads
          { opcode := .propGet, arguments := [.reference name, location.value, v.value] }) :
          Known base (code ++ []) other := by
        simp only [Instruction.reads, Instruction.operands, Opcode.resultArgument?,
          List.eraseIdx_cons_succ, List.eraseIdx_cons_zero, List.append_nil, List.flatMap_cons,
          List.flatMap_nil, List.mem_append] at hother
        obtain hother | hother := hother
        · exact .inl (List.mem_singleton.1 hother ▸ hname)
        · exact (hlocation other hother).append []
      exact Triple.mono (supplies_produce hvocabulary _ (fun v => rfl) hread)
        (fun t ht => ht.toGrounded.at_once.supplies ht.familiar) fun _ _ => id
    · cases items with
      | nil => exact .throw rfl
      | cons item items =>
        refine (supplies_item hvocabulary (hitems item List.mem_cons_self)).bind_and
          fun staged hstaged => .pure fun t ht => Supplies.supplied ?_
        refine supplies_effect staged.code rfl (List.forall_mem_cons.2
          ⟨knownValue_reference (.inl hname), List.forall_mem_cons.2
            ⟨hlocation.append staged.code, List.forall_mem_singleton.2 ?_⟩⟩) ht
        split
        · exact hstaged.coerce hvocabulary _
        · exact hstaged

theorem knownValue_coerceArguments {parameters : List Parameter} {values : List Value}
    (h : ∀ value ∈ values, KnownValue base code value) :
    ∀ value ∈ coerceArguments f parameters values, KnownValue base code value := by
  induction parameters generalizing values with
  | nil =>
    cases values with
    | nil => exact h
    | cons value values => exact h
  | cons p parameters ih =>
    cases values with
    | nil => exact h
    | cons value values =>
      obtain ⟨hvalue, hvalues⟩ := List.forall_mem_cons.1 h
      refine List.forall_mem_cons.2 ⟨?_, ih hvalues⟩
      rw [coerceArgument]
      split
      · exact hvalue.coerce hvocabulary _
      · exact hvalue

theorem known_calledName {callee : MethodRef} (hcallee : base callee.name)
    {delegate : Option Variable} (hdelegate : ∀ v ∈ delegate, FamiliarVariable base code v) :
    Known base code (calledName f callee delegate) := by
  unfold calledName
  split
  · exact .inl hcallee
  · next v =>
    have hv := hdelegate v rfl
    split
    · next name hname =>
      exact hv.invoke name hname
    · cases hloaded : f.lastLoaded? with
      | none => exact hv.known v.name List.mem_cons_self
      | some name =>
        rw [Frame.lastLoaded?] at hloaded
        split at hloaded
        · next j hj =>
          obtain ⟨method, hmethod, rfl⟩ := Option.map_eq_some_iff.1 hloaded
          have hmem := List.mem_of_mem_take (List.mem_reverse.1 (List.mem_of_find?_eq_some hj))
          exact .inl ((hvocabulary.body j hmem).method method hmethod).1
        · cases hloaded

omit hvocabulary in
theorem known_of_reads_callInstruction {location : Location} {name : String}
    {arguments : List Value} (hlocation : KnownValue base code location.value)
    (hname : Known base code name) (harguments : ∀ value ∈ arguments, KnownValue base code value)
    (v : Variable) :
    ∀ other ∈ (callInstruction location name arguments v.value).reads, Known base code other := by
  have hvariadic (other : String) (h : other ∈ arguments.flatMap operandNames) :
      Known base code other := by
    obtain ⟨value, hvalue, hother⟩ := List.mem_flatMap.1 h
    exact harguments value hvalue other hother
  intro other hother
  cases location <;>
    simp only [callInstruction, Instruction.reads, Instruction.operands, Opcode.resultArgument?,
      List.eraseIdx_cons_succ, List.eraseIdx_cons_zero, List.flatMap_append, List.flatMap_cons,
      List.flatMap_nil, List.append_nil, List.mem_append] at hother
  · obtain (hother | hother) | hother := hother
    · exact List.mem_singleton.1 hother ▸ hname
    · exact hlocation other hother
    · exact hvariadic other hother
  · obtain (hother | hother) | hother := hother
    · exact hlocation other hother
    · exact List.mem_singleton.1 hother ▸ hname
    · exact hvariadic other hother
  · obtain (hother | hother) | hother := hother
    · exact List.mem_singleton.1 hother ▸ hname
    · exact hlocation other hother
    · exact hvariadic other hother

structure KnownReceiver (base : String → Prop) (code : List Instruction) (receiver : Receiver) :
    Prop where
  location : KnownValue base code receiver.location.value
  delegate : ∀ v ∈ receiver.delegate, FamiliarVariable base code v

theorem supplies_plainCall {callee : MethodRef} (hcallee : base callee.name) {items : List Item}
    (hitems : ∀ item ∈ items, item.Familiar base code) {receiver : Receiver}
    (hreceiver : KnownReceiver base code receiver) :
    Triple floor (Supplies base stray slots code) (plainCall f callee items receiver)
      (Supplied base stray slots code) := by
  refine (supplies_stageAll stable_supplies (fun _ ht => ht.toGrounded) hvocabulary
    hitems).bind_and fun staged hstaged => ?_
  refine Triple.mono (supplies_produce hvocabulary _ (assigned_callInstruction _ _ _) ?_)
    (fun t ht => ht.2.supplies ht.1.familiar) fun _ _ => id
  refine known_of_reads_callInstruction (hreceiver.location.append staged.1) ?_ ?_
  · exact (known_calledName hvocabulary hcallee hreceiver.delegate).append staged.1
  · exact knownValue_coerceArguments hvocabulary hstaged

theorem supplies_callBody {callee : MethodRef}
    (hcallee : base callee.name ∧ base (Naming.accessed callee.name))
    (declaration : Option MethodDecl) {items : List Item}
    (hitems : ∀ item ∈ items, item.Familiar base code) {receiver : Receiver}
    (hreceiver : KnownReceiver base code receiver) :
    Triple floor (Supplies base stray slots code)
      (callBody f callee declaration items receiver) (Supplied base stray slots code) := by
  rw [callBody]
  split
  · exact supplies_nothing
  split
  · exact supplies_concat hvocabulary hitems
  split
  · exact supplies_equality hvocabulary hitems false
  split
  · exact supplies_equality hvocabulary hitems true
  split
  · exact supplies_property hvocabulary callee hcallee.2 hitems hreceiver.location
  · exact supplies_plainCall hvocabulary hcallee.1 hitems hreceiver

theorem knownReceiver_self (code : List Instruction) :
    KnownReceiver base code { location := .self } :=
  ⟨knownValue_reference (.inl hvocabulary.this), fun _ h => (by cases h)⟩

theorem supplies_instanceReceiver (count : Nat) :
    Triple (Supplies base stray slots code) (Supplies base stray slots code)
      (instanceReceiver f i count) fun receiver t =>
        KnownReceiver base (code ++ receiver.code) receiver ∧
          Supplies base stray slots (code ++ receiver.code) t := by
  apply Triple.get_eq
  intro s hs
  split
  · exact supplies_underflow.mono (fun t ht => ht ▸ hs) fun _ _ => id
  · next item stack hstack =>
    obtain ⟨hitem, hrest⟩ := List.forall_mem_cons.1 (hstack ▸ hs.familiar.items)
    have hpopped : Supplies base stray slots code { s with stack } :=
      hs.restack hrest rfl rfl rfl fun _ => id
    refine Triple.bind (Q := fun _ => Supplies base stray slots code) (.set hpopped)
      fun _ => ?_
    split
    · refine .pure fun t ht => ⟨⟨knownValue_reference (.inl hvocabulary.this), fun v hv => ?_⟩,
        ht.toGrounded.at_once.supplies ht.familiar⟩
      exact (hitem.delegate hv).append []
    · split
      · exact .pure fun t ht => ⟨knownReceiver_self hvocabulary _,
          ht.toGrounded.at_once.supplies ht.familiar⟩
      · refine (supplies_item hvocabulary hitem).bind_and fun staged hstaged => ?_
        exact .pure fun t ht => ⟨⟨hstaged, fun _ h => (by cases h)⟩, ht⟩

theorem supplies_plainReceiver {callee : MethodRef} (hcallee : base (staticLocation callee))
    (declaration : Option MethodDecl) :
    Triple floor (Supplies base stray slots code)
      (plainReceiver f callee declaration) fun receiver t =>
        KnownReceiver base (code ++ receiver.code) receiver ∧
          Supplies base stray slots (code ++ receiver.code) t := by
  have hfound (this : Bool) {location : Location}
      (hlocation : KnownValue base (code ++ []) location.value) :
      Triple floor (Supplies base stray slots code)
        (do
          let s ← get
          if this = true then
            set { s with stack := s.stack.drop 1 }
            return { location := .self }
          else return { location } : Lower Receiver) fun receiver t =>
          KnownReceiver base (code ++ receiver.code) receiver ∧
            Supplies base stray slots (code ++ receiver.code) t := by
    apply Triple.get_eq
    intro s hs
    cases this with
    | false =>
      refine .pure fun t ht => ⟨⟨hlocation, fun _ h => (by cases h)⟩, ?_⟩
      rw [ht]
      exact hs.toGrounded.at_once.supplies hs.familiar
    | true =>
      have hdropped : Supplies base stray slots code
          { s with stack := s.stack.drop 1 } :=
        hs.restack (fun item hitem => hs.familiar.items item (List.mem_of_mem_drop hitem)) rfl rfl
          rfl fun _ => id
      refine Triple.bind (Q := fun _ => Supplies base stray slots code) (.set hdropped)
        fun _ => .pure fun t ht => ?_
      exact ⟨knownReceiver_self hvocabulary _, ht.toGrounded.at_once.supplies ht.familiar⟩
  have hlocation (isStatic : Bool) : KnownValue base (code ++ [])
      (if isStatic then Location.type (staticLocation callee) else .self).value := by
    cases isStatic with
    | true => exact knownValue_reference (.inl hcallee)
    | false => exact knownValue_reference (.inl hvocabulary.this)
  cases declaration with
  | none =>
    exact (supplies_warn stable_supplies _).bind fun _ s hs => hfound _ (hlocation _) s hs
  | some d => exact fun s hs => hfound _ (hlocation _) s hs

theorem provides_call (hi : Spoken base i) : Provides base stray slots code (call f i) := by
  refine triple_needed fun callee hcallee => Triple.get fun s _ => ?_
  obtain ⟨hname, haccessed, hstatic⟩ := hi.method callee hcallee
  refine (supplies_popMany _).bind_and fun items hitems => ?_
  have hbody (receiver : Receiver) (hreceiver : KnownReceiver base (code ++ receiver.code) receiver) :
      Triple (Supplies base stray slots code)
        (Supplies base stray slots (code ++ receiver.code))
        (do
          return receiver.code ++
            (← callBody f callee ((f.program.method? callee).map Prod.snd) items receiver))
        (Supplied base stray slots code) :=
    (supplies_callBody hvocabulary ⟨hname, haccessed⟩ _ (fun item hitem =>
      (hitems item hitem).append receiver.code) hreceiver).bind fun emitted => .pure fun t ht =>
        ht.append_left
  dsimp only
  split
  · exact (supplies_instanceReceiver hvocabulary _).bind_and hbody
  · exact (supplies_plainReceiver hvocabulary hstatic _).bind_and hbody

/-- The code of an instruction reads and writes as it should, up to the store that it may have made. -/
theorem supplies_step (hi : i ∈ f.method.body) :
    Triple (Served base stray code)
      (fun s => Served base stray code s ∧ ∀ name, Writes f i s.stack name → stray name)
      (step f i) fun emitted t => Served base (Opened stray emitted t) (code ++ emitted) t := by
  have hserved {I : Simulation → Prop} {x : Lower (List Instruction)}
      (h : Triple (Served base stray code) I x
        (Supplied base stray (FamiliarVariable base code) code)) :
      Triple (Served base stray code) I x fun emitted t =>
        Served base (Opened stray emitted t) (code ++ emitted) t :=
    h.mono (fun _ => id) fun emitted _ ht => ht.mono_slots fun v hv => hv.append emitted
  have hprovides {x : Lower (List Instruction)}
      (h : Provides base stray (FamiliarVariable base code) code x) :
      Triple (Served base stray code)
        (fun s => Served base stray code s ∧ ∀ name, Writes f i s.stack name → stray name)
        x fun emitted t => Served base (Opened stray emitted t) (code ++ emitted) t :=
    hserved (Triple.mono h (fun _ hs => hs.1) fun _ _ => id)
  have hspoken := hvocabulary.body i hi
  rw [step]
  split
  · exact hprovides supplies_nothing
  · exact hprovides (provides_load hvocabulary hspoken)
  · exact hserved (provides_store hvocabulary hspoken)
  · exact hprovides (provides_call hvocabulary hspoken)
  · exact (provides_branch hvocabulary).mono (fun _ hs => hs.1) fun _ _ => Supplies.supplied
  · exact hprovides (provides_conditional hvocabulary)
  · exact hprovides (provides_giveBack hvocabulary)
  · exact hprovides (provides_arithmetic hvocabulary)
  · exact hprovides (provides_shuffle hvocabulary)

end

end Lower

end PapyrusBackend.Lowering
