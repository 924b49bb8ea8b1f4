import PapyrusBackend.Lowering.Operators
import PapyrusBackend.Proofs.Lowering.Assigned

namespace PapyrusBackend.Lowering

open Source

/-- Code assigns auxiliary variables only, unless all that is left on the stack is what lay below the
top `n` items. -/
def Confined (n : Nat) (s : Simulation) (code : List Instruction) (t : Simulation) : Prop :=
  (∀ name ∈ assignedNames code, Auxiliary s name) ∨ t.stack = s.stack.drop n

variable {f : Frame} {i : Instr} {m n : Nat} {s t u : Simulation} {code rest : List Instruction}

theorem Confined.of_scratch (h : ScratchCode code) : Confined n s code t :=
  .inl fun name hname => .inl (h name hname)

theorem Confined.of_taken (h : Taken n s t) : Confined n s code t := .inr h.stack

theorem Confined.after (h : Confined n t code u) (htaken : Taken m s t) :
    Confined (m + n) s code u := by
  obtain hcode | hstack := h
  · refine .inl fun name hname => (hcode name hname).imp_right ?_
    rw [htaken.joins]
    exact id
  · exact .inr (by rw [hstack, htaken.stack, List.drop_drop])

theorem Confined.ready (h : Confined n t code u) (htaken : Taken 0 s t) : Confined n s code u := by
  have hafter := h.after htaken
  rwa [Nat.zero_add] at hafter

theorem Confined.append (h : Confined n s rest t) (hcode : ScratchCode code) :
    Confined n s (code ++ rest) t := by
  obtain hrest | hstack := h
  · refine .inl fun name hname => ?_
    rw [assignedNames, List.flatMap_append, List.mem_append] at hname
    exact hname.elim (fun h => .inl (hcode name h)) (hrest name)
  · exact .inr hstack

namespace Lower

theorem finish_ok {d : Destination} (h : finish d s = .ok rest t) :
    assignedNames rest = assignedNames d.before ∧ ∀ v, d = .store v → t = s := by
  cases d with
  | push v =>
    cases h
    exact ⟨rfl, fun _ hd => (by cases hd)⟩
  | discard v =>
    cases h
    exact ⟨rfl, fun _ hd => (by cases hd)⟩
  | member v holder field before =>
    cases h
    refine ⟨?_, fun _ hd => (by cases hd)⟩
    rw [assignedNames, List.flatMap_append]
    exact List.append_nil _
  | store v =>
    cases h
    exact ⟨rfl, fun _ _ => rfl⟩

theorem produce_confined (hs : Sound s) {type : String}
    (hcode : ScratchCode code) {make : Value → Instruction}
    (hmake : ∀ v : Variable, (make v.value).assigned = [v.name]) {emitted : List Instruction}
    (h : produce f type code make s = .ok emitted t) : Confined (holderCount f) s emitted t := by
  obtain ⟨d, t', hdestination, h⟩ := bind_ok h
  obtain ⟨rest, t'', hfinish, h⟩ := bind_ok h
  obtain ⟨hrest, hstore⟩ := finish_ok hfinish
  cases h
  cases destination_settled hs hdestination with
  | scratch hname hbefore =>
    refine .of_scratch (hcode.append (.cons ?_ ?_))
    · intro name hassigned
      rw [Destination.value, hmake] at hassigned
      rw [List.mem_singleton.1 hassigned]
      exact hname
    · intro name hassigned
      rw [hrest] at hassigned
      exact hbefore name hassigned
  | store v hd htaken =>
    cases hstore v hd
    exact .of_taken htaken

/-- A result that is produced once the operands are taken and staged. -/
theorem produce_after (hs : Sound s) (htaken : Taken n s t) (hready : Ready t code u)
    {type : String} {make : Value → Instruction}
    (hmake : ∀ v : Variable, (make v.value).assigned = [v.name]) {emitted : List Instruction}
    {t' : Simulation} (h : produce f type code make u = .ok emitted t') :
    Confined (n + holderCount f) s emitted t' := by
  have hsound := hready.taken.sound (htaken.sound hs)
  exact ((produce_confined hsound hready.scratch hmake h).ready hready.taken).after htaken

theorem unaryOpcode_result (c : Code) (float : Bool) :
    (unaryOpcode c float).1.resultArgument? = some 0 := by
  rw [unaryOpcode]
  split
  · rfl
  · split <;> rfl

theorem unary_confined (hs : Sound s) (h : unary f i s = .ok code t) :
    Confined (1 + holderCount f) s code t := by
  obtain ⟨item, t', hpop, hunary⟩ := bind_ok h
  obtain ⟨htaken, hitem⟩ := popOperand_taken hpop
  obtain ⟨staged, t'', hstage, hproduce⟩ := bind_ok hunary
  have hready := stage_ok (hs item hitem) hstage
  exact produce_after hs htaken hready (fun v => assigned_result (unaryOpcode_result _ _) v _)
    hproduce

theorem binaryOpcode?_result {c : Code} {float : Bool} {opcode : Opcode}
    (h : binaryOpcode? c float = some opcode) : opcode.resultArgument? = some 0 := by
  cases c <;> cases float <;> cases h <;> rfl

theorem binary_confined (hs : Sound s) (h : binary f i s = .ok code t) :
    Confined (2 + holderCount f) s code t := by
  obtain ⟨⟨a, b⟩, t', hpop, hbinary⟩ := bind_ok h
  obtain ⟨htaken, ha, hb⟩ := popPair_taken hpop
  cases hopcode : binaryOpcode? i.code (a.isFloat || b.isFloat) with
  | none =>
    simp only [hopcode] at hbinary
    cases hbinary
  | some opcode =>
    simp only [hopcode] at hbinary
    obtain ⟨⟨staging, lhs, rhs⟩, t'', hstage, hproduce⟩ := bind_ok hbinary
    have hready := stagePair_ok (hs a ha) (hs b hb) hstage
    exact produce_after hs htaken hready
      (fun v => assigned_result (binaryOpcode?_result hopcode) v _) hproduce

theorem comparisonOpcode?_result {c : Code} {opcode : Opcode}
    (h : comparisonOpcode? c = some opcode) : opcode.resultArgument? = some 0 := by
  cases c <;> cases h <;> rfl

theorem conditional_confined (hs : Sound s) (h : conditional f i s = .ok code t) :
    Confined (2 + holderCount f) s code t := by
  rw [conditional] at h
  cases hopcode : comparisonOpcode? i.code with
  | none =>
    simp only [hopcode] at h
    cases h
  | some opcode =>
    simp only [hopcode] at h
    obtain ⟨⟨a, b⟩, t', hpop, hconditional⟩ := bind_ok h
    obtain ⟨htaken, ha, hb⟩ := popPair_taken hpop
    obtain ⟨⟨staging, lhs, rhs⟩, t'', hstage, hproduce⟩ := bind_ok hconditional
    have hready := stagePair_ok (hs a ha) (hs b hb) hstage
    exact produce_after hs htaken hready
      (fun v => assigned_result (comparisonOpcode?_result hopcode) v _) hproduce

theorem cast_confined (hs : Sound s) {type : String} (h : cast f i type s = .ok code t) :
    Confined (1 + holderCount f) s code t := by
  obtain ⟨item, t', hpop, hcast⟩ := bind_ok h
  obtain ⟨htaken, hitem⟩ := popOperand_taken hpop
  have hconvert (h : (if Text.sameName item.type type = true then do
        push item
        return []
      else do
        let staged ← stage item
        produce f type staged.code fun d => { opcode := .cast, arguments := [d, staged.value] } :
        Lower (List Instruction)) t' = .ok code t) : Confined (1 + holderCount f) s code t := by
    split at h
    · cases h
      exact .of_scratch .nil
    · obtain ⟨staged, t'', hstage, hproduce⟩ := bind_ok h
      exact produce_after hs htaken (stage_ok (hs item hitem) hstage)
        (fun v => assigned_result rfl v _) hproduce
  cases hcontent : item.content with
  | literal value =>
    simp only [hcontent] at hcast
    cases value with
    | int n => cases hcast; exact .of_scratch .nil
    | float x => cases hcast; exact .of_scratch .nil
    | _ => exact hconvert hcast
  | _ =>
    simp only [hcontent] at hcast
    exact hconvert hcast

theorem shuffle_confined (hs : Sound s) (h : shuffle f i s = .ok code t) :
    Confined (1 + holderCount f) s code t := by
  rw [shuffle] at h
  cases hcode : i.code with
  | dup | pop | box =>
    simp only [hcode] at h
    obtain ⟨_, t', _, hpure⟩ := bind_ok h
    cases hpure
    exact .of_scratch .nil
  | convI4 | convR4 | convR8 =>
    simp only [hcode] at h
    exact cast_confined hs h
  | _ =>
    simp only [hcode] at h
    cases h

theorem freshVariables_ok {types : List String} {vs : List Variable}
    (h : freshVariables types s = .ok vs t) : ∀ v ∈ vs, Scratch v.name := by
  induction types generalizing s vs with
  | nil =>
    cases h
    exact fun _ hv => absurd hv List.not_mem_nil
  | cons type types ih =>
    obtain ⟨v, t', hfirst, hrest⟩ := bind_ok h
    obtain ⟨others, t'', hothers, hpure⟩ := bind_ok hrest
    obtain ⟨_, hname⟩ := temporary_ok hfirst
    cases hpure
    refine List.forall_mem_cons.2 ⟨?_, ih hothers⟩
    rw [hname]
    exact scratch_temporary _

theorem joinVariables_ok {offset : UInt32} {items : List Item} {slots : List Variable}
    (h : joinVariables offset items s = .ok (some slots) t) :
    ∀ v ∈ slots, Auxiliary s v.name := by
  obtain ⟨_, _, hget, hjoin⟩ := bind_ok h
  cases hget
  cases hlookup : s.joins.lookup offset with
  | none =>
    simp only [hlookup] at hjoin
    obtain ⟨fresh, t', hfresh, hrest⟩ := bind_ok hjoin
    cases hrest
    exact fun v hv => .inl (freshVariables_ok hfresh v hv)
  | some known =>
    simp only [hlookup] at hjoin
    obtain ⟨front, back, hjoins, _⟩ := List.lookup_eq_some_iff.1 hlookup
    have hmem : (offset, known) ∈ s.joins := by
      rw [hjoins]
      exact List.mem_append_right front List.mem_cons_self
    split at hjoin
    · cases hjoin
      exact fun v hv => .inr ⟨_, hmem, v, hv, rfl⟩
    · obtain ⟨_, t', _, hpure⟩ := bind_ok hjoin
      cases hpure

theorem assignAll_ok {vs : List Variable} {items : List Item}
    (hitems : ∀ item ∈ items, item.isSound = true) (h : assignAll f vs items s = .ok code t) :
    ∀ name ∈ assignedNames code, Scratch name ∨ ∃ v ∈ vs, v.name = name := by
  induction vs generalizing items s code with
  | nil =>
    cases h
    exact fun _ hname => absurd hname List.not_mem_nil
  | cons v vs ih =>
    cases items with
    | nil =>
      cases h
      exact fun _ hname => absurd hname List.not_mem_nil
    | cons item items =>
      obtain ⟨hitem, hothers⟩ := List.forall_mem_cons.1 hitems
      obtain ⟨first, t', hfirst, hrest⟩ := bind_ok h
      obtain ⟨others, t'', hassign, hpure⟩ := bind_ok hrest
      cases hpure
      intro name hname
      rw [assignedNames, List.flatMap_append, List.mem_append] at hname
      obtain hname | hname := hname
      · exact ((assign_ok hitem hfirst).2 name hname).imp_right fun hv =>
          ⟨v, List.mem_cons_self, hv⟩
      · obtain hscratch | ⟨w, hw, hwname⟩ := ih hothers hassign name hname
        · exact .inl hscratch
        · exact .inr ⟨w, List.mem_cons_of_mem v hw, hwname⟩

theorem spill_ok (hs : Sound s) {offset : UInt32} {keep : Bool}
    (h : spill f offset keep s = .ok code t) : ∀ name ∈ assignedNames code, Auxiliary s name := by
  obtain ⟨_, _, hget, hspill⟩ := bind_ok h
  cases hget
  cases hempty : s.stack.reverse.isEmpty with
  | true =>
    simp only [hempty, if_true] at hspill
    cases hspill
    exact fun _ hname => absurd hname List.not_mem_nil
  | false =>
    simp only [hempty, Bool.false_eq_true, if_false] at hspill
    obtain ⟨slots?, t', hjoin, hcarry⟩ := bind_ok hspill
    cases slots? with
    | none =>
      cases hcarry
      exact fun _ hname => absurd hname List.not_mem_nil
    | some slots =>
      obtain ⟨_, t'', _, hassign⟩ := bind_ok hcarry
      obtain ⟨carried, u, hcarried, hrest⟩ := bind_ok hassign
      have hslots := joinVariables_ok hjoin
      have hassigned := assignAll_ok (fun item hitem => hs item (List.mem_reverse.1 hitem)) hcarried
      have hcode : code = carried := by
        cases keep <;> cases hrest <;> rfl
      subst hcode
      intro name hname
      obtain hscratch | ⟨v, hv, rfl⟩ := hassigned name hname
      · exact .inl hscratch
      · exact hslots v hv

theorem stageCondition_ok {item : Item} (hitem : item.isSound = true) {expected : Bool}
    {result : Staged × Bool} (h : stageCondition item expected s = .ok result t) :
    Ready s result.1.code t := by
  rw [stageCondition] at h
  cases hcontent : item.content with
  | comparison opcode lhs rhs =>
    simp only [hcontent] at h
    obtain ⟨made, t', hmade, hinverted⟩ := bind_ok h
    obtain ⟨inverted, t'', htake, hpure⟩ := bind_ok hinverted
    obtain ⟨hready, _⟩ := materialize_ok (isSound_comparison hitem hcontent) hmade
    have htaken := hready.taken.trans (takeInverted_taken htake)
    cases hpure
    exact ⟨htaken, hready.scratch⟩
  | _ =>
    simp only [hcontent] at h
    obtain ⟨staged, t', hstage, hpure⟩ := bind_ok h
    cases hpure
    exact stage_ok hitem hstage

/-- Code that carries items to a place and then jumps there. -/
theorem carried_confined (hs : Sound s) (htaken : Taken n s t) (hready : Ready t code u)
    {offset : UInt32} {keep : Bool} {carried : List Instruction} {t' : Simulation}
    (h : spill f offset keep u = .ok carried t') {jump : Instruction} (hjump : jump.assigned = []) :
    Confined m s (code ++ carried ++ [jump]) t' := by
  have hboth := htaken.trans hready.taken
  refine .inl fun name hname => ?_
  rw [assignedNames, List.flatMap_append, List.flatMap_append, List.mem_append, List.mem_append,
    List.flatMap_singleton, hjump] at hname
  obtain (hname | hname) | hname := hname
  · exact .inl (hready.scratch name hname)
  · have hauxiliary := spill_ok (hboth.sound hs) h name hname
    rwa [Auxiliary, hboth.joins] at hauxiliary
  · exact absurd hname List.not_mem_nil

theorem assigned_jumpIf (expected : Bool) (condition : Value) (target : Option Target) :
    (Instruction.jumpIf expected condition target).assigned = [] := by
  cases expected <;> rfl

theorem branchOnTruth_confined (hs : Sound s) {offset : UInt32} {expected : Bool}
    (h : branchOnTruth f i offset expected s = .ok code t) : Confined n s code t := by
  obtain ⟨item, t', hpop, hbranch⟩ := bind_ok h
  obtain ⟨htaken, hitem⟩ := popOperand_taken hpop
  obtain ⟨⟨condition, expected⟩, t'', hstage, hspill⟩ := bind_ok hbranch
  obtain ⟨carried, u, hcarried, hpure⟩ := bind_ok hspill
  cases hpure
  exact carried_confined hs htaken (stageCondition_ok (hs item hitem) hstage) hcarried
    (assigned_jumpIf _ _ _)

theorem branchOnComparison_confined (hs : Sound s) {offset : UInt32}
    (h : branchOnComparison f i offset s = .ok code t) : Confined n s code t := by
  rw [branchOnComparison] at h
  cases hopcode : branchOpcode? i.code with
  | none =>
    simp only [hopcode] at h
    cases h
  | some choice =>
    obtain ⟨opcode, expected⟩ := choice
    simp only [hopcode] at h
    obtain ⟨⟨a, b⟩, t', hpop, hbranch⟩ := bind_ok h
    obtain ⟨htaken, ha, hb⟩ := popPair_taken hpop
    obtain ⟨⟨staging, lhs, rhs⟩, t'', hstage, hmade⟩ := bind_ok hbranch
    obtain ⟨made, u, hmaterialize, hspill⟩ := bind_ok hmade
    obtain ⟨carried, u', hcarried, hpure⟩ := bind_ok hspill
    have hresult : opcode.resultArgument? = some 0 := by
      revert hopcode
      cases i.code <;> intro hopcode <;> cases hopcode <;> rfl
    have hready := (stagePair_ok (hs a ha) (hs b hb) hstage).trans
      (materialize_ok hresult hmaterialize).1
    cases hpure
    exact carried_confined hs htaken hready hcarried (assigned_jumpIf _ _ _)

theorem branch_confined (hs : Sound s) (h : branch f i s = .ok code t) : Confined n s code t := by
  obtain ⟨offset, t', hneed, hbranch⟩ := bind_ok h
  obtain ⟨_, rfl⟩ := need_ok hneed
  cases hcode : i.code with
  | br =>
    simp only [hcode] at hbranch
    obtain ⟨carried, u, hcarried, hpure⟩ := bind_ok hbranch
    cases hpure
    exact carried_confined hs (.refl t') ⟨.refl t', .nil⟩ hcarried rfl
  | brtrue =>
    simp only [hcode] at hbranch
    exact branchOnTruth_confined hs hbranch
  | brfalse =>
    simp only [hcode] at hbranch
    exact branchOnTruth_confined hs hbranch
  | _ =>
    simp only [hcode] at hbranch
    exact branchOnComparison_confined hs hbranch

theorem giveBack_confined (hs : Sound s) (h : giveBack f i s = .ok code t) :
    Confined n s code t := by
  rw [giveBack] at h
  split at h
  · cases h
    exact .of_scratch (.cons (fun _ hname => absurd hname List.not_mem_nil) .nil)
  · obtain ⟨item, t', hpop, hgive⟩ := bind_ok h
    obtain ⟨staged, t'', hstage, hpure⟩ := bind_ok hgive
    have hready := stage_ok (hs item (popOperand_taken hpop).2) hstage
    cases hpure
    exact .of_scratch (hready.scratch.append
      (.cons (fun _ hname => absurd hname List.not_mem_nil) .nil))

end Lower

end PapyrusBackend.Lowering
