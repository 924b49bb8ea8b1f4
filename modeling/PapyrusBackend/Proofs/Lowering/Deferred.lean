import PapyrusBackend.Lowering.Operators
import PapyrusBackend.Proofs.Lowering.Assigned
import PapyrusBackend.Proofs.Lowering.Triple

namespace PapyrusBackend

def Instruction.isNeutral (i : Instruction) : Bool :=
  i.opcode ∉ [Opcode.not, .cmpEq, .cmpLt, .cmpLe, .cmpGt, .cmpGe, .jmp, .jmpt, .jmpf]

namespace Lowering

open Source

def Item.isComparison (item : Item) : Bool :=
  match item.content with
  | .comparison .. => true
  | _ => false

def Item.Proper (item : Item) : Prop := item.isComparison = true → item.type = "Bool"

theorem Item.exists_comparison {item : Item} (h : item.isComparison = true) :
    ∃ opcode lhs rhs, item.content = .comparison opcode lhs rhs := by
  rw [isComparison] at h
  split at h
  · next opcode lhs rhs hcontent => exact ⟨opcode, lhs, rhs, hcontent⟩
  · cases h

/-- What happens to comparisons: an equality operator is called, its comparison is left on the stack
or made at once and stored, a comparison on the stack is duplicated, or one is made. -/
inductive Event where
  | called (inequality : Bool)
  | left (item : Item)
  | stored
  | copied (item : Item)
  | made (item : Item) (inverted : Bool)
  deriving DecidableEq

namespace Event

def flag (inverted : Bool) : Event → Bool
  | called inequality => inequality
  | left _ => inverted
  | copied _ => inverted
  | stored => false
  | made .. => false

def gained? : Event → Option Item
  | left item => some item
  | copied item => some item
  | _ => none

def made? : Event → Option Item
  | made item _ => some item
  | _ => none

end Event

/-- Whether the last that happened to comparisons is a call of the inequality operator. -/
def flagAfter (events : List Event) : Bool := events.foldl Event.flag false

theorem flagAfter_concat (events : List Event) (event : Event) :
    flagAfter (events ++ [event]) = event.flag (flagAfter events) := by
  simp [flagAfter]

/-- A comparison is inverted exactly if the inequality operator was called just before. -/
def Lawful (events : List Event) : Prop :=
  ∀ front item inverted back, events = front ++ .made item inverted :: back →
    inverted = flagAfter front

theorem lawful_nil : Lawful [] := by
  intro front item inverted back h
  cases front <;> cases h

/-- A property of the events in front of each comparison that is made is kept by an event that has it
too. -/
theorem forall_made_concat {P : List Event → Item → Bool → Prop} {events : List Event}
    {event : Event}
    (h : ∀ front item inverted back, events = front ++ .made item inverted :: back →
      P front item inverted)
    (hevent : ∀ item inverted, event = .made item inverted → P events item inverted) :
    ∀ front item inverted back, events ++ [event] = front ++ .made item inverted :: back →
      P front item inverted := by
  intro front item inverted back hsplit
  rcases List.eq_nil_or_concat back with rfl | ⟨rest, last, rfl⟩
  · obtain ⟨rfl, hlast⟩ := List.append_inj' hsplit rfl
    exact hevent item inverted (List.singleton_inj.1 hlast)
  · rw [List.concat_eq_append, ← List.cons_append, ← List.append_assoc] at hsplit
    exact h front item inverted rest (List.append_inj' hsplit rfl).1

theorem Lawful.concat {events : List Event} {event : Event} (h : Lawful events)
    (hevent : ∀ item inverted, event = .made item inverted → inverted = flagAfter events) :
    Lawful (events ++ [event]) :=
  forall_made_concat h hevent

def NeutralCode (code : List Instruction) : Prop := ∀ j ∈ code, j.isNeutral = true

theorem NeutralCode.nil : NeutralCode [] := fun _ hj => absurd hj List.not_mem_nil

theorem NeutralCode.cons {j : Instruction} {code : List Instruction} (hj : j.isNeutral = true)
    (h : NeutralCode code) : NeutralCode (j :: code) := List.forall_mem_cons.2 ⟨hj, h⟩

theorem NeutralCode.append {code rest : List Instruction} (h : NeutralCode code)
    (hrest : NeutralCode rest) : NeutralCode (code ++ rest) := List.forall_mem_append.2 ⟨h, hrest⟩

/-- Code shows which comparisons from the stack are made, and how they are read. -/
inductive Reads : List Event → List Instruction → Prop
  | nil : Reads [] []
  | other {events : List Event} {code : List Instruction} {j : Instruction}
      (hj : j.isNeutral = true) (h : Reads events code) : Reads events (j :: code)
  | made {events : List Event} {code : List Instruction} {item : Item} {opcode : Opcode}
      {lhs rhs : Value} (hitem : item.content = .comparison opcode lhs rhs) (inverted : Bool)
      (v : Value) (h : Reads events code) :
      Reads (.made item inverted :: events)
        ({ opcode, arguments := [v, lhs, rhs] } ::
          ((if inverted then [Lower.negation v] else []) ++ code))

theorem Reads.append {events events' : List Event} {code code' : List Instruction}
    (h : Reads events code) (h' : Reads events' code') :
    Reads (events ++ events') (code ++ code') := by
  induction h with
  | nil => exact h'
  | other hj _ ih => exact .other hj ih
  | made hitem inverted v _ ih =>
    have hmade := Reads.made hitem inverted v ih
    rwa [← List.append_assoc] at hmade

theorem Reads.of_neutral {code : List Instruction} (h : NeutralCode code) : Reads [] code := by
  induction code with
  | nil => exact .nil
  | cons j code ih =>
    obtain ⟨hj, hcode⟩ := List.forall_mem_cons.1 h
    exact .other hj (ih hcode)

theorem Reads.append_neutral {events : List Event} {code rest : List Instruction}
    (h : Reads events code) (hrest : NeutralCode rest) : Reads events (code ++ rest) := by
  have hboth := h.append (.of_neutral hrest)
  rwa [List.append_nil] at hboth

def AllMade (events : List Event) : Prop :=
  ∀ event ∈ events, ∃ item inverted, event = .made item inverted

theorem Reads.allMade {events : List Event} {code : List Instruction} (h : Reads events code) :
    AllMade events := by
  induction h with
  | nil => exact fun _ hevent => absurd hevent List.not_mem_nil
  | other _ _ ih => exact ih
  | made _ inverted _ _ ih => exact List.forall_mem_cons.2 ⟨⟨_, inverted, rfl⟩, ih⟩

/-- What is on the stack and in hand after some events, if the items were `count` in number before
them and `past` happened earlier. -/
structure Stock (past : List Event) (count : Item → Nat) (events : List Event) (hand : List Item)
    (s : Simulation) : Prop where
  flag : s.inverted = flagAfter (past ++ events)
  lawful : Lawful (past ++ events)
  budget : ∀ item, item.isComparison = true →
    (events.filterMap Event.made?).count item + hand.count item + s.stack.count item ≤
      count item + (events.filterMap Event.gained?).count item
  funded : ∀ front item inverted back, events = front ++ .made item inverted :: back →
    item.isComparison = true ∧ (front.filterMap Event.made?).count item <
      count item + (front.filterMap Event.gained?).count item
  proper : ∀ item ∈ hand ++ s.stack, item.Proper

section

variable {past base events : List Event} {count : Item → Nat} {hand : List Item} {item : Item}
  {s t : Simulation} {code rest : List Instruction}

theorem Stock.start (h : s.inverted = flagAfter past) (hlawful : Lawful past)
    (hproper : ∀ item ∈ s.stack, item.Proper) : Stock past s.stack.count [] [] s where
  flag := by rwa [List.append_nil]
  lawful := by rwa [List.append_nil]
  budget item _ := by simp
  funded front item inverted back h := by cases front <;> cases h
  proper := hproper

/-- Items change hands. -/
theorem Stock.pass (h : Stock past count events hand s) {held : List Item}
    (hflag : t.inverted = s.inverted)
    (hcount : ∀ item, item.isComparison = true →
      held.count item + t.stack.count item ≤ hand.count item + s.stack.count item) :
    Stock past count events held t where
  flag := hflag.trans h.flag
  lawful := h.lawful
  budget item hitem := by
    have hbudget := h.budget item hitem
    have hle := hcount item hitem
    omega
  funded := h.funded
  proper item hitem hcomparison := by
    have hle := hcount item hcomparison
    have hpos : 0 < (held ++ t.stack).count item := List.count_pos_iff.2 hitem
    apply h.proper item _ hcomparison
    rw [List.count_append] at hpos
    apply List.count_pos_iff.1
    rw [List.count_append]
    omega

theorem Stock.drop (h : Stock past count events (item :: hand) s) :
    Stock past count events hand s := by
  apply h.pass rfl
  intro other _
  rw [List.count_cons]
  omega

theorem Stock.dropAll (h : Stock past count events hand s) : Stock past count events [] s := by
  apply h.pass rfl
  intro other _
  rw [List.count_nil]
  omega

theorem isComparison_joined (slots : List Variable) :
    ∀ item ∈ Lower.joined slots, item.isComparison = false := by
  intro item hitem
  obtain ⟨v, _, rfl⟩ := List.mem_map.1 (List.mem_reverse.1 hitem)
  rfl

/-- The stack goes on with the variables of a join. -/
theorem Stock.join (h : Stock past count events hand s) (hinverted : t.inverted = s.inverted)
    {slots : List Variable} (hstack : t.stack = Lower.joined slots) :
    Stock past count events hand t := by
  apply h.pass hinverted
  intro item hitem
  have hnone : t.stack.count item = 0 := by
    rw [hstack, List.count_eq_zero]
    intro hmem
    have hnot := isComparison_joined slots item hmem
    rw [hitem] at hnot
    cases hnot
  omega

/-- A comparison in hand is made. -/
theorem Stock.made (h : Stock past count events (item :: hand) s) (hitem : item.isComparison = true)
    (hstack : t.stack = s.stack) (hinverted : t.inverted = false) :
    Stock past count (events ++ [.made item s.inverted]) hand t where
  flag := by
    rw [hinverted, ← List.append_assoc, flagAfter_concat]
    rfl
  lawful := by
    rw [← List.append_assoc]
    apply h.lawful.concat
    intro _ inverted hevent
    cases hevent
    exact h.flag
  budget other hother := by
    have hbudget := h.budget other hother
    have hmade : [Event.made item s.inverted].filterMap Event.made? = [item] := rfl
    have hgained : [Event.made item s.inverted].filterMap Event.gained? = [] := rfl
    rw [hstack, List.filterMap_append, List.filterMap_append, hmade, hgained, List.count_append,
      List.append_nil]
    rw [List.count_cons] at hbudget ⊢
    rw [List.count_nil]
    omega
  funded := by
    apply forall_made_concat h.funded
    intro other inverted hevent
    cases hevent
    have hbudget := h.budget item hitem
    rw [List.count_cons_self] at hbudget
    exact ⟨hitem, by omega⟩
  proper other hother := by
    rw [hstack] at hother
    exact h.proper other (List.mem_cons_of_mem item hother)

/-- Something else happens to comparisons. -/
theorem Stock.concat (h : Stock past count events hand s) (event : Event)
    (hmade : event.made? = none) (hflag : t.inverted = event.flag s.inverted)
    (hstack : t.stack = event.gained?.toList ++ s.stack)
    (hproper : ∀ item ∈ event.gained?, item.Proper) :
    Stock past count (events ++ [event]) hand t where
  flag := by rw [hflag, h.flag, ← List.append_assoc, flagAfter_concat]
  lawful := by
    rw [← List.append_assoc]
    apply h.lawful.concat
    rintro item inverted rfl
    cases hmade
  budget item hitem := by
    have hbudget := h.budget item hitem
    have hnone : [event].filterMap Event.made? = [] := by rw [List.filterMap_cons_none hmade]; rfl
    have hgained : [event].filterMap Event.gained? = event.gained?.toList := by
      cases hevent : event.gained? with
      | none => rw [List.filterMap_cons_none hevent]; rfl
      | some other => rw [List.filterMap_cons_some hevent]; rfl
    rw [List.filterMap_append, List.filterMap_append, hnone, hgained, List.append_nil,
      List.count_append, hstack, List.count_append]
    omega
  funded := by
    apply forall_made_concat h.funded
    rintro item inverted rfl
    cases hmade
  proper item hitem := by
    rw [hstack] at hitem
    rcases List.mem_append.1 hitem with hmem | hmem
    · exact h.proper item (List.mem_append_left _ hmem)
    · rcases List.mem_append.1 hmem with hgained | hmem
      · exact hproper item (Option.mem_toList.1 hgained)
      · exact h.proper item (List.mem_append_right _ hmem)

def Spelt (past : List Event) (count : Item → Nat) (base : List Event) (code : List Instruction)
    (hand : List Item) (s : Simulation) : Prop :=
  ∃ events, Reads events code ∧ Stock past count (base ++ events) hand s

theorem Stock.spelt (h : Stock past count base hand s) : Spelt past count base [] hand s :=
  ⟨[], .nil, by rwa [List.append_nil]⟩

theorem Spelt.stock (h : Spelt past count base [] hand s) : Stock past count base hand s := by
  obtain ⟨events, hreads, hstock⟩ := h
  cases hreads
  rwa [List.append_nil] at hstock

theorem Spelt.append_nil (h : Spelt past count base code hand s) :
    Spelt past count base (code ++ []) hand s := by
  rwa [List.append_nil]

theorem Spelt.append_neutral (h : Spelt past count base code hand s) (hrest : NeutralCode rest) :
    Spelt past count base (code ++ rest) hand s := by
  obtain ⟨events, hreads, hstock⟩ := h
  exact ⟨events, hreads.append_neutral hrest, hstock⟩

theorem Spelt.mono (h : Spelt past count base code hand s) {held : List Item}
    (hpass : ∀ events, Stock past count events hand s → Stock past count events held t) :
    Spelt past count base code held t := by
  obtain ⟨events, hreads, hstock⟩ := h
  exact ⟨events, hreads, hpass _ hstock⟩

theorem blind_stock : Blind (Stock past count events hand) := by
  intro s t hstack hinverted _ _ hs
  apply hs.pass hinverted
  intro item _
  apply Nat.le_of_eq
  rw [hstack]

theorem blind_spelt : Blind (Spelt past count base code hand) := by
  intro s t hstack hinverted hnext hoffset h
  exact h.mono fun events => blind_stock s t hstack hinverted hnext hoffset

theorem Triple.spelt {floor : Simulation → Prop} {x : Lower α} {Q : α → Simulation → Prop}
    (h : ∀ events, Reads events code →
      Triple floor (Stock past count (base ++ events) hand) x Q) :
    Triple floor (Spelt past count base code hand) x Q := by
  rintro s ⟨events, hreads, hstock⟩
  exact h events hreads s hstock

end

namespace Lower

variable {floor : Simulation → Prop} {f : Frame} {i : Instr} {past base : List Event}
  {count : Item → Nat} {hand : List Item} {item : Item} {code : List Instruction}

theorem triple_push (hitem : item.isComparison = false) :
    Triple floor (Spelt past count base code hand) (push item) fun _ t =>
      Spelt past count base code hand t := by
  apply Triple.modify
  intro s hs
  apply hs.mono
  intro events hstock
  apply hstock.pass
  · rfl
  · intro other hother
    have hne : item ≠ other := by
      rintro rfl
      rw [hitem] at hother
      cases hother
    apply Nat.le_of_eq
    show hand.count other + (item :: s.stack).count other = _
    rw [List.count_cons_of_ne hne]

/-- An item goes back to the stack. -/
theorem triple_pushBack :
    Triple floor (Spelt past count base code (item :: hand)) (push item) fun _ t =>
      Spelt past count base code hand t := by
  apply Triple.modify
  intro s hs
  apply hs.mono
  intro events hstock
  apply hstock.pass
  · rfl
  · intro other _
    show hand.count other + (item :: s.stack).count other ≤ _
    rw [List.count_cons, List.count_cons]
    omega

theorem triple_underflow {n : Nat} {Q : α → Simulation → Prop} :
    Triple (Stock past count [] []) (Stock past count [] hand) (underflow f i n) Q :=
  fun _ hs _ => hs.dropAll

theorem triple_popMany (n : Nat) :
    Triple (Stock past count [] []) (Stock past count [] []) (popMany f i n) fun items t =>
      Stock past count [] items t := by
  apply Triple.get
  intro s hs
  by_cases hn : n ≤ s.stack.length
  · simp only [Stack.popMany?, if_pos hn]
    apply Triple.bind (Q := fun _ t => Stock past count [] (s.stack.take n).reverse t)
    · apply Triple.set
      apply hs.pass
      · rfl
      · intro item _
        apply Nat.le_of_eq
        show (s.stack.take n).reverse.count item + (s.stack.drop n).count item = _
        rw [List.count_reverse, ← List.count_append, List.take_append_drop, List.count_nil,
          Nat.zero_add]
    · exact fun _ => .pure fun _ => id
  · simp only [Stack.popMany?, if_neg hn]
    exact triple_underflow

theorem triple_popOperands (n : Nat) :
    Triple (Stock past count [] []) (Stock past count [] []) (popOperands f i n) fun items t =>
      Stock past count [] items t := by
  apply Triple.get
  intro s _
  dsimp only
  split
  · exact triple_popMany _
  · exact .throw rfl

theorem triple_popOperand :
    Triple (Stock past count [] []) (Stock past count [] []) (popOperand f i) fun item t =>
      Spelt past count [] [] [item] t := by
  apply (triple_popOperands 1).bind
  intro items
  split
  · exact .pure fun _ hs => hs.spelt
  · exact triple_underflow

theorem triple_popPair :
    Triple (Stock past count [] []) (Stock past count [] []) (popPair f i) fun pair t =>
      Spelt past count [] [] [pair.1, pair.2] t := by
  apply (triple_popOperands 2).bind
  intro items
  split
  · exact .pure fun _ hs => hs.spelt
  · exact triple_underflow

theorem triple_popTriple :
    Triple (Stock past count [] []) (Stock past count [] []) (popTriple f i) fun triple t =>
      Spelt past count [] [] [triple.1, triple.2.1, triple.2.2] t := by
  apply (triple_popOperands 3).bind
  intro items
  split
  · exact .pure fun _ hs => hs.spelt
  · exact triple_underflow

theorem triple_materialize {I : Simulation → Prop} (hI : Blind I) (opcode : Opcode)
    (lhs rhs : Value) :
    Triple floor I (materialize opcode lhs rhs) fun made t =>
      (∃ v, made = ⟨[{ opcode, arguments := [v, lhs, rhs] }], v⟩) ∧ I t :=
  (triple_temporary hI "Bool").bind fun v => .pure fun _ hs => ⟨⟨v.value, rfl⟩, hs⟩

/-- The flag goes to the comparison that is made. -/
theorem triple_takeInverted (hitem : item.isComparison = true) :
    Triple floor (Stock past count base (item :: hand)) takeInverted fun inverted t =>
      Stock past count (base ++ [.made item inverted]) hand t := by
  apply Triple.get
  intro s hs
  apply Triple.bind (Q := fun _ t => Stock past count (base ++ [.made item s.inverted]) hand t)
  · exact .set (hs.made hitem rfl rfl)
  · exact fun _ => .pure fun _ => id

theorem Stages.neutral {I : Simulation → Prop} (hI : Blind I) (hitem : item.isComparison = false)
    {s t : Simulation} {staged : Staged} (h : Stages s item staged t) (hs : I s) :
    NeutralCode staged.code ∧ I t := by
  cases h with
  | member _ _ hv => exact ⟨.cons rfl .nil, hI.temporary hv hs⟩
  | comparison _ hcontent _ =>
    rw [Item.isComparison, hcontent] at hitem
    cases hitem
  | _ => exact ⟨.nil, hs⟩

theorem triple_stage :
    Triple floor (Spelt past count base code (item :: hand)) (stage item) fun staged t =>
      Spelt past count base (code ++ staged.code) hand t := by
  apply triple_stages
  intro s staged t hs hstages
  cases hitem : item.isComparison with
  | false =>
    have hdropped : Spelt past count base code hand s := hs.mono fun _ => Stock.drop
    obtain ⟨hneutral, ht⟩ := hstages.neutral blind_spelt hitem hdropped
    exact ht.append_neutral hneutral
  | true =>
    obtain ⟨opcode, lhs, rhs, hcontent⟩ := Item.exists_comparison hitem
    cases hstages with
    | this _ => exact (hs.mono fun _ => Stock.drop).append_nil
    | @comparison _ _ _ v _ _ hcontent hv =>
      obtain ⟨events, hreads, hstock⟩ := hs
      have hmade := hreads.append (.made hcontent s.inverted v.value .nil)
      rw [List.append_nil] at hmade
      refine ⟨_, hmade, ?_⟩
      rw [← List.append_assoc]
      cases hv
      exact hstock.made hitem rfl rfl
    | literal _ h | held _ h | method _ h | member _ h _ => cases hcontent.symm.trans h

theorem triple_stageAll {items : List Item} :
    Triple floor (Spelt past count base code (items ++ hand)) (stageAll items) fun staged t =>
      Spelt past count base (code ++ staged.1) hand t := by
  induction items generalizing code with
  | nil =>
    apply Triple.pure
    intro s hs
    rwa [List.append_nil]
  | cons item items ih =>
    apply triple_stage.bind
    intro first
    apply ih.bind
    intro rest
    apply Triple.pure
    intro s hs
    rwa [← List.append_assoc]

theorem triple_stagePair {a b : Item} :
    Triple floor (Spelt past count base code (a :: b :: hand)) (stagePair a b) fun staged t =>
      Spelt past count base (code ++ staged.1) hand t := by
  apply triple_stage.bind
  intro first
  apply triple_stage.bind
  intro second
  apply Triple.pure
  intro s hs
  rwa [← List.append_assoc]

theorem triple_assign {v : Variable} :
    Triple floor (Spelt past count base code (item :: hand)) (assign f v item) fun emitted t =>
      Spelt past count base (code ++ emitted) hand t := by
  apply triple_stage.bind
  intro staged
  apply Triple.pure
  intro s hs
  rw [← List.append_assoc]
  exact hs.append_neutral (.cons rfl .nil)

theorem triple_assignAll {vs : List Variable} {items : List Item} :
    Triple floor (Spelt past count base code (items ++ hand)) (assignAll f vs items)
      fun emitted t => Spelt past count base (code ++ emitted) hand t := by
  have hstop {code : List Instruction} {items : List Item} :
      Triple floor (Spelt past count base code (items ++ hand)) (pure []) fun emitted t =>
        Spelt past count base (code ++ emitted) hand t := by
    apply Triple.pure
    intro s hs
    rw [List.append_nil]
    apply hs.mono
    intro events hstock
    apply hstock.pass rfl
    intro item _
    rw [List.count_append]
    omega
  induction vs generalizing items code with
  | nil => exact hstop
  | cons v vs ih =>
    cases items with
    | nil => exact hstop
    | cons item items =>
      apply triple_assign.bind
      intro first
      apply ih.bind
      intro rest
      apply Triple.pure
      intro s hs
      rwa [← List.append_assoc]

theorem triple_spill (offset : UInt32) (keep : Bool) :
    Triple floor (Spelt past count base code hand) (spill f offset keep) fun carried t =>
      Spelt past count base (code ++ carried) hand t := by
  apply Triple.get_eq
  intro s hs
  dsimp only
  split
  · exact .pure fun t ht => ht ▸ hs.append_nil
  · have hjoin : Triple floor (· = s) (joinVariables offset s.stack.reverse) fun _ t =>
        Spelt past count base code hand t ∧ t.stack = s.stack := by
      apply (triple_joinVariables (I := fun t => Spelt past count base code hand t ∧
        t.stack = s.stack) _ offset _).mono
      · rintro t rfl
        exact ⟨hs, rfl⟩
      · exact fun _ _ => id
      · rintro t u hstack hinverted hnext hoffset ⟨ht, hts⟩
        exact ⟨blind_spelt t u hstack hinverted hnext hoffset ht, hstack.trans hts⟩
    apply hjoin.bind
    intro slots
    cases slots with
    | none => exact .pure fun _ ht => ht.1.append_nil
    | some slots =>
      apply Triple.bind (Q := fun _ t => Spelt past count base code (s.stack.reverse ++ hand) t)
      · apply Triple.modify
        rintro t ⟨ht, hstack⟩
        apply ht.mono
        intro events hstock
        apply hstock.pass
        · rfl
        · intro item _
          show (s.stack.reverse ++ hand).count item + List.count item [] ≤ _
          rw [List.count_append, List.count_reverse, hstack, List.count_nil]
          omega
      · intro _
        apply triple_assignAll.bind
        intro carried
        cases keep with
        | false => exact .pure fun _ => id
        | true =>
          apply Triple.bind (Q := fun _ t => Spelt past count base (code ++ carried) hand t)
          · exact .modify fun t ht => ht.mono fun events hstock => hstock.join rfl rfl
          · exact fun _ => .pure fun _ => id

theorem triple_enter (offset : UInt32) :
    Triple floor (Spelt past count base code hand) (enter f offset) fun carried t =>
      Spelt past count base (code ++ carried) hand t := by
  apply Triple.get
  intro s hs
  split
  · exact .pure fun _ => Spelt.append_nil
  · split
    · apply Triple.bind (Q := fun _ t => Spelt past count base code hand t)
      · exact .set (hs.mono fun events hstock => hstock.join rfl rfl)
      · exact fun _ => .pure fun _ => Spelt.append_nil
    · exact triple_spill offset true

/-- The object of a store is never a comparison if it is a struct. -/
theorem isComparison_holder {events : List Event} {s : Simulation} {holder : Item} {stack : Stack}
    (h : Stock past count events hand s) (hstack : s.stack = holder :: stack)
    (hstruct : Naming.isStruct holder.type = true) : holder.isComparison = false := by
  apply Bool.eq_false_iff.2
  intro hcomparison
  have hproper : holder.Proper := by
    apply h.proper
    rw [hstack]
    exact List.mem_append_right _ List.mem_cons_self
  rw [hproper hcomparison] at hstruct
  exact absurd hstruct (by decide)

theorem triple_destination (type : String) :
    Triple floor (Spelt past count base code hand) (destination f type) fun d t =>
      NeutralCode d.before ∧ Spelt past count base code hand t := by
  apply triple_directs
  intro s d t hs hdirects
  have hrest {holder : Item} {rest : Stack} (hstack : s.stack = holder :: rest) :
      Spelt past count base code hand { s with stack := rest, skipNext := true } := by
    refine hs.mono fun events hstock => hstock.pass rfl fun item _ => ?_
    rw [hstack]
    exact Nat.add_le_add_left List.count_le_count_cons _
  cases hdirects with
  | discard _ hv => exact ⟨.nil, blind_spelt.declareNone hv hs⟩
  | push hv => exact ⟨.nil, blind_spelt.temporary hv hs⟩
  | store _ _ =>
    exact ⟨.nil, hs.mono fun _ hstock => hstock.pass rfl fun _ _ => Nat.le_refl _⟩
  | field _ _ _ hstack _ => exact ⟨.nil, hrest hstack⟩
  | member _ _ _ hstack hstruct hstage hv =>
    obtain ⟨_, _, hstock⟩ := hs
    have hholder := isComparison_holder hstock hstack hstruct
    obtain ⟨hstaged, ht⟩ := (stage_stages hstage).neutral blind_spelt hholder (hrest hstack)
    exact ⟨hstaged, blind_spelt.temporary hv ht⟩

theorem triple_finish {d : Destination} (hd : NeutralCode d.before) :
    Triple floor (Spelt past count base code hand) (finish d) fun rest t =>
      NeutralCode rest ∧ Spelt past count base code hand t := by
  cases d with
  | push v =>
    apply (triple_push rfl).bind
    exact fun _ => .pure fun _ ht => ⟨.nil, ht⟩
  | member v holder field before =>
    apply Triple.pure
    intro s hs
    exact ⟨hd.append (.cons rfl .nil), hs⟩
  | store v => exact .pure fun _ hs => ⟨.nil, hs⟩
  | discard v => exact .pure fun _ hs => ⟨.nil, hs⟩

/-- An instruction with a result, and what remains to be done with the result. -/
theorem triple_produce (type : String) (front : List Instruction) (make : Value → Instruction) :
    Triple floor (Spelt past count base code hand) (produce f type front make) fun emitted t =>
      Spelt past count base code hand t ∧
        ∃ d rest, emitted = front ++ make d :: rest ∧ NeutralCode rest := by
  apply (triple_destination type).bind_and
  intro d hd
  apply (triple_finish hd).bind_and
  intro rest hrest
  exact .pure fun _ ht => ⟨ht, d.value, rest, rfl, hrest⟩

end Lower

end Lowering

end PapyrusBackend
