import Mathlib.Tactic.MkIffOfInductiveProp
import PapyrusBackend.Proofs.Lowering.DeferredStep
import PapyrusBackend.Proofs.Lowering.Landing

namespace PapyrusBackend.Lowering

open Source

/-- The whole history of a simulation: all comparisons on its stack have been left or copied there. -/
abbrev Recorded (events : List Event) : Simulation → Prop := Stock [] (fun _ => 0) events []

/-- A comparison is made only right after its own call, and read the way of that call. -/
def OwnPolarity (events : List Event) : Prop :=
  ∀ front item inverted back, events = front ++ .made item inverted :: back →
    ∃ earlier, front = earlier ++ [.called inverted, .left item]

def LastLeft (events : List Event) (stack : Stack) : Prop :=
  ∀ item ∈ stack, item.isComparison = true →
    stack.count item ≤ 1 ∧
      ∃ earlier inequality, events = earlier ++ [.called inequality, .left item]

structure Steady (events : List Event) (s : Simulation) : Prop where
  polarity : OwnPolarity events
  lastLeft : LastLeft events s.stack

/-- No comparison waits while an equality operator is called, and none is duplicated. -/
@[mk_iff]
structure Orderly (e : Encounter) : Prop where
  call : e.equality?.isSome = true → ∀ item ∈ e.state.stack, item.isComparison = false
  dup : e.instr.code = .dup → ∀ item ∈ e.state.stack.head?, item.isComparison = false

instance (e : Encounter) : Decidable (Orderly e) := decidable_of_iff _ (orderly_iff e).symm

inductive Chronicle : List Encounter → List Segment → List Event → Prop
  | nil : Chronicle [] [] []
  | cons {e : Encounter} {segment : Segment} {entered events : List Event}
      {encounters : List Encounter} {segments : List Segment} {rest : List Event}
      (hentry : Reads entered segment.entry) (hcode : Shows e events segment.code)
      (h : Chronicle encounters segments rest) :
      Chronicle (e :: encounters) (segment :: segments) (entered ++ events ++ rest)

namespace Lower

def encounters (f : Frame) (policy : Policy) :
    Nat → UInt16 → List Instr → Simulation → List Encounter
  | _, _, [], _ => []
  | position, line, i :: rest, s =>
    match arrive { f with position } i s,
      visit { f with position } policy (i.line.getD line) i s with
    | .ok _ s', .ok _ t =>
      ⟨{ f with position }, i, s'⟩ ::
        encounters f policy (position + 1) (i.line.getD line) rest t
    | _, _ => []

end Lower

section

variable {past events front back : List Event} {s t : Simulation} {item : Item}
  {e : Encounter} {code : List Instruction}

/-- An event of two histories one after the other is of the first or of the second. -/
theorem split_append {event : Event} (h : past ++ events = front ++ event :: back) :
    (∃ rest, past = front ++ event :: rest) ∨
      ∃ rest, front = past ++ rest ∧ events = rest ++ event :: back := by
  rcases List.append_eq_append_iff.1 h with ⟨rest, hfront, hrest⟩ | ⟨rest, hpast, hrest⟩
  · exact .inr ⟨rest, hfront, hrest⟩
  · cases rest with
    | nil =>
      rw [List.append_nil] at hpast
      exact .inr ⟨[], by rw [hpast, List.append_nil], hrest.symm⟩
    | cons first rest =>
      cases hrest
      exact .inl ⟨rest, hpast⟩

/-- A history goes on. -/
theorem Stock.follow (hs : Recorded past s) (h : Stock past s.stack.count events [] t) :
    Recorded (past ++ events) t where
  flag := h.flag
  lawful := h.lawful
  budget item hitem := by
    have hpast := hs.budget item hitem
    have hevents := h.budget item hitem
    rw [List.count_nil] at hpast hevents ⊢
    rw [List.filterMap_append, List.filterMap_append, List.count_append, List.count_append]
    omega
  funded front item inverted back hsplit := by
    rcases split_append hsplit with ⟨rest, hpast⟩ | ⟨rest, rfl, hevents⟩
    · exact hs.funded front item inverted rest hpast
    · obtain ⟨hitem, hfunded⟩ := h.funded rest item inverted back hevents
      have hpast := hs.budget item hitem
      rw [List.count_nil] at hpast
      rw [List.filterMap_append, List.filterMap_append, List.count_append, List.count_append]
      exact ⟨hitem, by omega⟩
  proper := h.proper

theorem OwnPolarity.concat (h : OwnPolarity past) {event : Event}
    (hevent : ∀ item inverted, event = .made item inverted →
      ∃ earlier, past = earlier ++ [.called inverted, .left item]) :
    OwnPolarity (past ++ [event]) :=
  forall_made_concat h hevent

theorem OwnPolarity.pass (h : OwnPolarity past) {event : Event} (hevent : event.made? = none) :
    OwnPolarity (past ++ [event]) := by
  apply h.concat
  rintro item inverted rfl
  cases hevent

theorem OwnPolarity.pass_pair (h : OwnPolarity past) {first second : Event}
    (hfirst : first.made? = none) (hsecond : second.made? = none) :
    OwnPolarity (past ++ [first, second]) := by
  rw [List.append_cons]
  exact (h.pass hfirst).pass hsecond

theorem LastLeft.unique {stack : Stack} (h : LastLeft past stack) {other : Item}
    (hitem : item ∈ stack) (hcomparison : item.isComparison = true) (hother : other ∈ stack)
    (hcomparison' : other.isComparison = true) : other = item := by
  obtain ⟨_, earlier, inequality, hpast⟩ := h item hitem hcomparison
  obtain ⟨_, earlier', inequality', hpast'⟩ := h other hother hcomparison'
  rw [hpast] at hpast'
  cases (List.append_inj' hpast' rfl).2
  rfl

/-- Comparisons do not come from nowhere. -/
theorem Stock.mem_stack (h : Stock past s.stack.count events [] t)
    (hgained : events.filterMap Event.gained? = []) (hitem : item ∈ t.stack)
    (hcomparison : item.isComparison = true) :
    (events.filterMap Event.made?).count item + t.stack.count item ≤ s.stack.count item ∧
      item ∈ s.stack := by
  have hbudget := h.budget item hcomparison
  rw [hgained, List.count_nil] at hbudget
  have hpos : 0 < t.stack.count item := List.count_pos_iff.2 hitem
  exact ⟨by omega, List.count_pos_iff.1 (by omega)⟩

/-- The comparison that is made is the one that was left last. -/
theorem Steady.made (hs : Steady past s) (h : Stock past s.stack.count events [] t)
    (hevents : AllMade events) : Steady (past ++ events) t := by
  cases events with
  | nil =>
    rw [List.append_nil]
    refine ⟨hs.polarity, fun item hitem hcomparison => ?_⟩
    obtain ⟨hle, hmem⟩ := h.mem_stack rfl hitem hcomparison
    obtain ⟨hone, hlast⟩ := hs.lastLeft item hmem hcomparison
    exact ⟨by omega, hlast⟩
  | cons event rest =>
    obtain ⟨item, inverted, rfl⟩ := hevents event List.mem_cons_self
    obtain ⟨hcomparison, hpos⟩ := h.funded [] item inverted rest rfl
    have hitem : item ∈ s.stack := List.count_pos_iff.1 (Nat.zero_lt_of_lt hpos)
    obtain ⟨hone, earlier, inequality, hpast⟩ := hs.lastLeft item hitem hcomparison
    have hinverted : inverted = inequality := by
      rw [h.lawful past item inverted rest rfl, hpast]
      simp [flagAfter, Event.flag]
    cases rest with
    | nil =>
      refine ⟨hs.polarity.concat ?_, fun other hother hcomparison' => ?_⟩
      · rintro _ _ ⟨⟩
        exact ⟨earlier, hinverted ▸ hpast⟩
      · obtain ⟨hle, hmem⟩ := h.mem_stack rfl hother hcomparison'
        have hpos : 0 < t.stack.count other := List.count_pos_iff.2 hother
        cases hs.lastLeft.unique hitem hcomparison hmem hcomparison'
        have hself : [item].count item = 1 := List.count_singleton_self
        have hmade : [Event.made item inverted].filterMap Event.made? = [item] := rfl
        rw [hmade] at hle
        omega
    | cons second rest =>
      -- one comparison waits at most, so that there is nothing left to be made
      obtain ⟨other, inverted', rfl⟩ := hevents second (List.mem_cons_of_mem _ List.mem_cons_self)
      obtain ⟨hcomparison', hlt⟩ := h.funded [.made item inverted] other inverted' rest rfl
      have hmade : [Event.made item inverted].filterMap Event.made? = [item] := rfl
      have hgained : [Event.made item inverted].filterMap Event.gained? = [] := rfl
      rw [hmade, hgained, List.count_nil, Nat.add_zero] at hlt
      have hother : other ∈ s.stack := List.count_pos_iff.1 (Nat.zero_lt_of_lt hlt)
      cases hs.lastLeft.unique hitem hcomparison hother hcomparison'
      rw [List.count_singleton_self] at hlt
      omega

/-- No comparison is made while there is none. -/
theorem Stock.eq_nil {count : Item → Nat} {hand : List Item} (front : List Event)
    (h : Stock past count (front ++ (events ++ back)) hand t) (hevents : AllMade events)
    (hcount : ∀ item, item.isComparison = true → count item = 0)
    (hfront : front.filterMap Event.gained? = []) : events = [] := by
  cases events with
  | nil => rfl
  | cons event rest =>
    obtain ⟨item, inverted, rfl⟩ := hevents event List.mem_cons_self
    obtain ⟨hcomparison, hlt⟩ := h.funded front item inverted (rest ++ back) rfl
    rw [hcount item hcomparison, hfront] at hlt
    exact absurd hlt (Nat.not_lt_zero _)

/-- An equality operator that is called while no comparison waits. -/
theorem Stock.called {count : Item → Nat} {inequality : Bool} {last : Event}
    (h : Stock past count (front ++ .called inequality :: (events ++ [last])) [] t)
    (hfront : AllMade front) (hevents : AllMade events)
    (hcount : ∀ item, item.isComparison = true → count item = 0) :
    front = [] ∧ events = [] := by
  have hnil : front = [] := Stock.eq_nil [] h hfront hcount rfl
  subst hnil
  exact ⟨rfl, Stock.eq_nil [.called inequality] h hevents hcount rfl⟩

theorem Steady.shows (hs : Steady past e.state) (horderly : Orderly e)
    (h : Stock past e.state.stack.count events [] t) (hshows : Shows e events code) :
    Steady (past ++ events) t := by
  have hcount (hcall : e.equality?.isSome = true) :
      ∀ item, item.isComparison = true → e.state.stack.count item = 0 := by
    intro item hcomparison
    rw [List.count_eq_zero]
    intro hitem
    rw [horderly.call hcall item hitem] at hcomparison
    cases hcomparison
  cases hshows with
  | omitted _ => exact hs.made h Reads.nil.allMade
  | plain _ hreads => exact hs.made h hreads.allMade
  | negated _ _ _ hfront => exact hs.made h hfront.allMade
  | compared _ _ _ _ hfront => exact hs.made h hfront.allMade
  | jump _ _ hfront => exact hs.made h hfront.allMade
  | tested _ _ _ hfront => exact hs.made h hfront.allMade
  | comparedJump _ _ _ _ _ hfront hcarried =>
    exact hs.made h (List.forall_mem_append.2 ⟨hfront.allMade, hcarried.allMade⟩)
  | turned _ _ inverted _ _ hcarried =>
    exact hs.made h (List.forall_mem_cons.2 ⟨⟨_, inverted, rfl⟩, hcarried.allMade⟩)
  | left hcode lhs rhs hfront hreads =>
    have hnone := hcount (by rw [hcode]; rfl)
    obtain ⟨rfl, rfl⟩ := h.called hfront.allMade hreads.allMade hnone
    refine ⟨hs.polarity.pass_pair rfl rfl, fun item hitem hcomparison => ?_⟩
    have hbudget : t.stack.count item ≤
        [{ content := .comparison .cmpEq lhs rhs, type := "Bool" }].count item := by
      have hbudget := h.budget item hcomparison
      rw [hnone item hcomparison, Nat.zero_add] at hbudget
      exact Nat.le_trans (Nat.le_add_left _ _) hbudget
    have hpos : 0 < t.stack.count item := List.count_pos_iff.2 hitem
    cases List.mem_singleton.1 (List.count_pos_iff.1 (Nat.lt_of_lt_of_le hpos hbudget))
    rw [List.count_singleton_self] at hbudget
    exact ⟨hbudget, past, _, rfl⟩
  | stored hcode _ _ _ hfront hreads =>
    have hnone := hcount (by rw [hcode]; rfl)
    obtain ⟨rfl, rfl⟩ := h.called hfront.allMade hreads.allMade hnone
    refine ⟨hs.polarity.pass_pair rfl rfl, fun item hitem hcomparison => ?_⟩
    have hmem := (h.mem_stack rfl hitem hcomparison).2
    exact absurd hmem (List.count_eq_zero.1 (hnone item hcomparison))
  | copied hcode hstack hitem =>
    rw [horderly.dup hcode _ hstack] at hitem
    cases hitem

end

namespace Lower

variable {f : Frame} {i : Instr} {policy : Policy} {past : List Event} {count : Item → Nat}
  {s t : Simulation}

theorem triple_arrive :
    Triple (Stock past count [] []) (Stock past count [] []) (arrive f i) fun entry t =>
      Spelt past count [] entry [] t := by
  apply Triple.get
  intro s hs
  split
  · exact .pure fun _ => Stock.spelt
  · apply Triple.bind (Q := fun _ t => Spelt past count [] [] [] t)
    · apply Triple.set
      apply Stock.spelt
      exact hs.pass rfl fun _ _ => Nat.le_refl _
    · exact fun _ => triple_enter i.offset

/-- An instruction that is left out does nothing to comparisons. -/
theorem tolerate_shown {code : List Instruction} (hs : Stock past count [] [] s)
    (h : tolerate policy i (step f i) s = .ok code t) : Shown past count ⟨f, i, s⟩ code t := by
  have hstep := triple_step (e := ⟨f, i, s⟩) s ⟨hs, rfl⟩
  dsimp only at hstep
  rw [tolerate] at h
  cases hrun : step f i s with
  | ok code' t' =>
    rw [hrun] at hstep h
    cases h
    exact hstep
  | error fault t' =>
    rw [hrun] at hstep h
    dsimp only at h
    split at h
    · next hlocal =>
      cases h
      have ht' : Stock past count [] [] t' := hstep hlocal.2
      exact ⟨[], .omitted (.inr ⟨fault, t', hrun⟩), blind_stock t' _ rfl rfl rfl rfl ht'⟩
    · cases h

/-- What a visit does to comparisons. -/
theorem visit_recorded {line : UInt16} {segment : Segment} (hs : Recorded past s)
    (h : visit f policy line i s = .ok (some segment) t) :
    ∃ s' entered events, arrive f i s = .ok segment.entry s' ∧ Reads entered segment.entry ∧
      Shows ⟨f, i, s'⟩ events segment.code ∧ Recorded (past ++ entered ++ events) t ∧
      (Orderly ⟨f, i, s'⟩ → Steady past s → Steady (past ++ entered ++ events) t) := by
  obtain ⟨s', harrive, hcode⟩ := visit_some h
  have hstart : Stock past s.stack.count [] [] s := .start hs.flag hs.lawful hs.proper
  obtain ⟨entered, hreads, hentered⟩ := triple_arrive.ok hstart harrive
  have hs' : Recorded (past ++ entered) s' := hs.follow hentered
  have hstart' : Stock (past ++ entered) s'.stack.count [] [] s' :=
    .start hs'.flag hs'.lawful hs'.proper
  have hshown : Shown (past ++ entered) s'.stack.count ⟨f, i, s'⟩ segment.code t := by
    rcases hcode with ⟨hskip, hnil, rfl⟩ | hrun
    · rw [hnil]
      exact ⟨[], .omitted (.inl hskip), hstart'.pass rfl fun _ _ => Nat.le_refl _⟩
    · exact tolerate_shown hstart' hrun
  obtain ⟨events, hshows, hevents⟩ := hshown
  refine ⟨s', entered, events, harrive, hreads, hshows, hs'.follow hevents, ?_⟩
  intro horderly hsteady
  have hsteady' : Steady (past ++ entered) s' := hsteady.made hentered hreads.allMade
  exact hsteady'.shows (e := ⟨f, i, s'⟩) horderly hevents hshows

/-- What a run does to comparisons. -/
theorem visitAll_recorded (before instrs after : List Instr)
    (hbody : f.method.body = before ++ instrs ++ after) {line : UInt16} {segments : List Segment}
    (hawaits : Awaits ((instrs ++ after).head?.map Instr.offset) s) (hs : Recorded past s)
    (h : visitAll f policy before.length line instrs s = .ok segments t) :
    ∃ events, Chronicle (encounters f policy before.length line instrs s) segments events ∧
      Recorded (past ++ events) t ∧
      ((∀ e ∈ encounters f policy before.length line instrs s, Orderly e) →
        Steady past s → Steady (past ++ events) t) := by
  induction instrs generalizing before line past s segments with
  | nil =>
    cases h
    exact ⟨[], .nil, by rwa [List.append_nil], fun _ hsteady => by rwa [List.append_nil]⟩
  | cons i rest ih =>
    obtain ⟨segment, s₁, hvisit, hrest⟩ := bind_ok h
    obtain ⟨segments', _, hsegments, hpure⟩ := bind_ok hrest
    cases hpure
    -- no mark leads past an instruction, so that every visit gives a segment
    obtain ⟨hpassed, made, rfl, _⟩ := (runs_visit _).ok hawaits hvisit
    rw [Passed, next?_eq hbody] at hpassed
    obtain ⟨s', entered, events, harrive, hentry, hcode, hs₁, hsteady₁⟩ := visit_recorded hs hvisit
    have hlength : before.length + 1 = (before ++ [i]).length := by
      rw [List.length_append, List.length_singleton]
    rw [hlength] at hsegments
    obtain ⟨events', hchronicle, ht, hsteady⟩ :=
      ih (before ++ [i]) (by simp [hbody]) hpassed hs₁ hsegments
    have hencounters : encounters f policy before.length line (i :: rest) s =
        ⟨{ f with position := before.length }, i, s'⟩ ::
          encounters f policy (before ++ [i]).length (i.line.getD line) rest s₁ := by
      rw [encounters, harrive, hvisit, hlength]
    rw [hencounters]
    refine ⟨_, .cons hentry hcode hchronicle, ?_, ?_⟩
    · rwa [← List.append_assoc, ← List.append_assoc]
    · intro horderly hsteady₀
      obtain ⟨hfirst, hothers⟩ := List.forall_mem_cons.1 horderly
      rw [← List.append_assoc, ← List.append_assoc]
      exact hsteady hothers (hsteady₁ hfirst hsteady₀)

end Lower

def metBefore (setting : Setting) (m : MethodDecl) (q : Nat) : List Encounter :=
  Lower.encounters (setting.frame m) setting.policy 0 0 (m.body.take q)
    (.start m setting.owner.delegateBindings)

theorem recorded_start (m : MethodDecl) (delegates : Bindings) :
    Recorded [] (Simulation.start m delegates) :=
  Stock.start (s := Simulation.start m delegates) rfl lawful_nil fun _ hitem =>
    absurd hitem List.not_mem_nil

theorem steady_start (m : MethodDecl) (delegates : Bindings) :
    Steady [] (Simulation.start m delegates) where
  polarity front _ _ _ h := by cases front <;> cases h
  lastLeft _ hitem := absurd hitem List.not_mem_nil

/-- Every comparison that is made has been left on the stack before, and is inverted exactly if the last
that happened to comparisons is a call of the inequality operator. If no comparison waits while an
equality operator is called, and none is duplicated, it is read the way of its own call. -/
theorem comparison_made_lawful {setting : Setting} {m : MethodDecl} {q : Nat}
    {segments : List Segment} {t : Simulation}
    (h : Lower.visitAll (setting.frame m) setting.policy 0 0 (m.body.take q)
      (.start m setting.owner.delegateBindings) = .ok segments t) :
    ∃ events, Chronicle (metBefore setting m q) segments events ∧ Recorded events t ∧
      Lawful events ∧ ((∀ e ∈ metBefore setting m q, Orderly e) → OwnPolarity events) := by
  obtain ⟨events, hchronicle, hrecorded, hsteady⟩ :=
    Lower.visitAll_recorded [] (m.body.take q) (m.body.drop q)
      (List.take_append_drop q m.body).symm (Lower.awaits_start m _ _) (recorded_start m _) h
  refine ⟨events, hchronicle, hrecorded, hrecorded.lawful, ?_⟩
  intro horderly
  exact (hsteady horderly (steady_start m _)).polarity

def textOperator (name : String) : Operand :=
  .method { owner := .string, name, parameters := [⟨"a", .string⟩, ⟨"b", .string⟩]
            returns := .boolean }

def distinguish : MethodDecl :=
  { name := "Distinguish"
    parameters := [⟨"a", .string⟩, ⟨"b", .string⟩, ⟨"c", .string⟩]
    returns := .boolean
    isStatic := true
    body := [
      { offset := 0, code := .ldarg, operand := .index 0 },
      { offset := 1, code := .ldarg, operand := .index 1 },
      { offset := 2, code := .call, operand := textOperator "op_Inequality" },
      { offset := 3, code := .brfalse, operand := .target 8 },
      { offset := 4, code := .ldarg, operand := .index 0 },
      { offset := 5, code := .ldarg, operand := .index 2 },
      { offset := 6, code := .call, operand := textOperator "op_Inequality" },
      { offset := 7, code := .ret },
      { offset := 8, code := .ldcI4, operand := .int 0 },
      { offset := 9, code := .ret }] }

/-- The branch is turned round, and what is given back is negated. -/
theorem comparison_made_lawful_distinguish :
    ∃ segments t events,
      Lower.visitAll (lenientSetting.frame distinguish) lenientSetting.policy 0 0
        (distinguish.body.take 10) (.start distinguish lenientSetting.owner.delegateBindings) =
          .ok segments t ∧
      (segments.flatMap Segment.instructions).map Instruction.opcode =
        [.cmpEq, .jmpt, .cmpEq, .not, .ret, .ret] ∧
      Chronicle (metBefore lenientSetting distinguish 10) segments events ∧ Recorded events t ∧
      Lawful events ∧ OwnPolarity events := by
  have hcode : (emitted? lenientSetting distinguish 10).map (List.map Instruction.opcode) =
      some [.cmpEq, .jmpt, .cmpEq, .not, .ret, .ret] := by
    decide +kernel
  have horderly : ∀ e ∈ metBefore lenientSetting distinguish 10, Orderly e := by
    decide +kernel
  rw [emitted?] at hcode
  split at hcode
  · next segments t h =>
    obtain ⟨events, hchronicle, hrecorded, hlawful, hown⟩ := comparison_made_lawful h
    refine ⟨segments, t, events, h, ?_, hchronicle, hrecorded, hlawful, hown horderly⟩
    exact Option.some_inj.1 hcode
  · cases hcode

def compareBoth (operator : String) : MethodDecl :=
  { name := "CompareBoth"
    parameters := [⟨"a", .string⟩, ⟨"b", .string⟩, ⟨"c", .string⟩, ⟨"d", .string⟩]
    returns := .boolean
    isStatic := true
    body := [
      { offset := 0, code := .ldarg, operand := .index 0 },
      { offset := 1, code := .ldarg, operand := .index 1 },
      { offset := 2, code := .call, operand := textOperator operator },
      { offset := 3, code := .ldarg, operand := .index 2 },
      { offset := 4, code := .ldarg, operand := .index 3 },
      { offset := 5, code := .call, operand := textOperator "op_Equality" },
      { offset := 6, code := .ceq },
      { offset := 7, code := .ret }] }

def compareTwice : MethodDecl :=
  { name := "CompareTwice"
    parameters := [⟨"a", .string⟩, ⟨"b", .string⟩]
    returns := .boolean
    isStatic := true
    body := [
      { offset := 0, code := .ldarg, operand := .index 0 },
      { offset := 1, code := .ldarg, operand := .index 1 },
      { offset := 2, code := .call, operand := textOperator "op_Inequality" },
      { offset := 3, code := .dup },
      { offset := 4, code := .ceq },
      { offset := 5, code := .ret }] }

/-- An operator that is called while a comparison waits decides about that comparison: it makes no
difference whether the first two texts are to be equal or not. A duplicate is not negated again. -/
theorem waiting_inequality_is_lost :
    emitted? lenientSetting (compareBoth "op_Inequality") 8 =
        emitted? lenientSetting (compareBoth "op_Equality") 8 ∧
      (emitted? lenientSetting (compareBoth "op_Inequality") 8).map (List.map Instruction.opcode) =
        some [.cmpEq, .cmpEq, .cmpEq, .ret] ∧
      (emitted? lenientSetting compareTwice 6).map (List.map Instruction.opcode) =
        some [.cmpEq, .not, .cmpEq, .cmpEq, .ret] := by
  decide +kernel

end PapyrusBackend.Lowering
