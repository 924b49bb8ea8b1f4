import PapyrusBackend.Proofs.Lowering.Confined
import PapyrusBackend.Proofs.Lowering.Flow
import PapyrusBackend.Proofs.Lowering.LookAhead

namespace PapyrusBackend.Lowering

open Source

variable {f : Frame} {i : Instr} {s : Simulation} {want : Fault → Simulation → Prop}

theorem EndsInStore.append_left {store : Instr} {v : Variable} {holders : List Item}
    {code : List Instruction} (h : EndsInStore store v holders code) (first : List Instruction) :
    EndsInStore store v holders (first ++ code) := by
  cases h with
  | «variable» hcode hlast =>
    rw [← List.append_assoc]
    exact .variable hcode hlast
  | field hcode hholder hlast =>
    rw [← List.append_assoc]
    exact .field hcode hholder hlast
  | member hcode hholder hfield hvalue hresult =>
    obtain ⟨j, hj, hassigned⟩ := hresult
    rw [← List.append_assoc]
    exact .member hcode hholder hfield (hvalue.append_right first)
      ⟨j, List.mem_append_right first hj, hassigned⟩

/-- Code that stands in front of what an instruction emits. -/
theorem Concludes.append_left {slow fast : Lower (List Instruction)}
    (h : Concludes f want s slow fast) (first : List Instruction) :
    Concludes f want s (do return first ++ (← slow)) (do return first ++ (← fast)) := by
  rw [Concludes, Finishes] at h ⊢
  cases hfast : fast s with
  | error fault t =>
    rw [hfast] at h
    rw [bind_fails hfast]
    exact h
  | ok code t =>
    rw [hfast] at h
    rw [bind_run hfast]
    obtain ⟨hjoins, hends⟩ := h
    refine ⟨hjoins, hends.imp_right ?_⟩
    rintro ⟨made, alone, store, v, hslow, habsorbs⟩
    obtain ⟨item, holders, hitem, hstack, hlast⟩ := habsorbs.stack
    exact ⟨first ++ made, alone, store, v, bind_run hslow, habsorbs.toStoreFollows, habsorbs.locals,
      item, holders, hitem, hstack, hlast.append_left first⟩

namespace Lower

theorem popMany_alone (n : Nat) : popMany f.alone i n = popMany f i n := rfl

theorem popOperand_alone : popOperand f.alone i = popOperand f i := rfl

theorem popPair_alone : popPair f.alone i = popPair f i := rfl

theorem spared_modify {g : Simulation → Simulation} (h : ∀ t, Spares t (g t)) :
    Spared want s (modify g) := h s

theorem spared_keep (item : Item) (code : List Instruction) :
    Spared want s (do push item; return code) := ⟨rfl, rfl, rfl⟩

theorem concludes_unary : Concludes f (Wanting f i s) s (unary f.alone i) (unary f i) := by
  rw [unary, unary, popOperand_alone]
  refine .bind spared_popOperand fun item t _ => ?_
  refine .bind (calm_stage item).spared fun staged u _ => ?_
  have hmake (v : Variable) :=
    assigned_result (unaryOpcode_result i.code item.isFloat) v [staged.value]
  exact concludes_produce hmake hmake

theorem concludes_binary : Concludes f (Wanting f i s) s (binary f.alone i) (binary f i) := by
  rw [binary, binary, popPair_alone]
  refine .bind spared_popPair fun pair t _ => ?_
  dsimp only
  cases hopcode : binaryOpcode? i.code (pair.1.isFloat || pair.2.isFloat) with
  | none => exact (Spared.throw rfl).concludes
  | some opcode =>
    refine .bind (calm_stagePair pair.1 pair.2).spared fun staged u _ => ?_
    have hmake (v : Variable) :=
      assigned_result (binaryOpcode?_result hopcode) v [staged.2.1, staged.2.2]
    exact concludes_produce hmake hmake

theorem concludes_conditional :
    Concludes f (Wanting f i s) s (conditional f.alone i) (conditional f i) := by
  rw [conditional, conditional, popPair_alone]
  cases hopcode : comparisonOpcode? i.code with
  | none => exact (Spared.throw rfl).concludes
  | some opcode =>
    refine .bind spared_popPair fun pair t _ => ?_
    refine .bind (calm_stagePair pair.1 pair.2).spared fun staged u _ => ?_
    have hmake (v : Variable) :=
      assigned_result (comparisonOpcode?_result hopcode) v [staged.2.1, staged.2.2]
    exact concludes_produce hmake hmake

theorem concludes_arithmetic :
    Concludes f (Wanting f i s) s (arithmetic f.alone i) (arithmetic f i) := by
  rw [arithmetic, arithmetic]
  split
  · exact concludes_unary
  · exact concludes_unary
  · exact concludes_binary

theorem concludes_cast {type : String} :
    Concludes f (Wanting f i s) s (cast f.alone i type) (cast f i type) := by
  rw [cast, cast, popOperand_alone]
  refine .bind spared_popOperand fun item t _ => ?_
  dsimp only
  split
  · exact (spared_keep _ []).concludes
  · exact (spared_keep _ []).concludes
  · split
    · exact (spared_keep item []).concludes
    · refine .bind (calm_stage item).spared fun staged u _ => ?_
      have hmake (v : Variable) := @assigned_result .cast rfl v [staged.value]
      exact concludes_produce hmake hmake

theorem concludes_shuffle : Concludes f (Wanting f i s) s (shuffle f.alone i) (shuffle f i) := by
  simp only [shuffle]
  split
  · refine ((spared_require 1).bind fun _ t _ => .bind ?_ fun _ _ _ => .pure _).concludes
    exact spared_modify fun _ => ⟨rfl, rfl, rfl⟩
  · exact (spared_popOperand.bind fun _ _ _ => .pure _).concludes
  · exact ((spared_require 1).bind fun _ _ _ => .pure _).concludes
  · exact concludes_cast
  · exact concludes_cast
  · exact concludes_cast
  · exact (Spared.throw rfl).concludes

theorem concludes_giveBack {slow : Lower (List Instruction)} :
    Concludes f (Wanting f i s) s slow (giveBack f i) := by
  apply Spared.concludes
  simp only [giveBack]
  split
  · exact .pure _
  · exact spared_popOperand.bind fun item _ _ => ((calm_stage item).bind fun _ => .pure _).spared

theorem concludes_loadField {slow : Lower (List Instruction)} :
    Concludes f (Wanting f i s) s slow (loadField f i) := by
  apply Spared.concludes
  refine (spared_need _ _).bind fun field t h => ?_
  obtain ⟨_, rfl⟩ := need_ok h
  refine spared_popOperand.bind fun holder u _ => ?_
  dsimp only
  split
  · split
    · exact spared_keep _ []
    · exact .throw rfl
  · exact (calm_fieldVariable field).spared.bind fun _ _ _ => spared_keep _ []

theorem concludes_loadElement :
    Concludes f (Wanting f i s) s (loadElement f.alone i) (loadElement f i) := by
  rw [loadElement, loadElement, popPair_alone]
  refine .bind spared_popPair fun pair t _ => ?_
  refine .bind (calm_stagePair pair.1 pair.2).spared fun staged u _ => ?_
  have hmake (v : Variable) :=
    @assigned_result .arrayGet rfl v [staged.2.1, staged.2.2]
  exact concludes_produce hmake hmake

theorem concludes_loadLength :
    Concludes f (Wanting f i s) s (loadLength f.alone i) (loadLength f i) := by
  rw [loadLength, loadLength, popOperand_alone]
  refine .bind spared_popOperand fun item t _ => ?_
  refine .bind (calm_stage item).spared fun staged u _ => ?_
  have hmake (v : Variable) := @assigned_result .arrayLength rfl v [staged.value]
  exact concludes_produce hmake hmake

theorem concludes_newArray :
    Concludes f (Wanting f i s) s (newArray f.alone i) (newArray f i) := by
  rw [newArray, newArray, popOperand_alone]
  refine .bind (spared_need _ _) fun element t h => ?_
  obtain ⟨_, rfl⟩ := need_ok h
  refine .bind spared_popOperand fun item t _ => ?_
  refine .bind (calm_stage item).spared fun staged u _ => ?_
  have hmake (v : Variable) := @assigned_result .arrayCreate rfl v [staged.value]
  exact concludes_produce hmake hmake

theorem concludes_newObject :
    Concludes f (Wanting f i s) s (newObject f.alone i) (newObject f i) := by
  simp only [newObject, popMany_alone]
  refine .bind (spared_need _ _) fun ctor t h => ?_
  obtain ⟨_, rfl⟩ := need_ok h
  refine .bind (Spared.get (k := pure) (.pure _)) fun s' t h => ?_
  cases h
  refine .bind (spared_popMany _) fun items t _ => ?_
  split
  · exact (spared_keep _ []).concludes
  · split
    · cases hlater : f.generation.isLater with
      | true =>
        have hmake (v : Variable) := @assigned_result .structCreate rfl v []
        simp only [show f.alone.generation.isLater = true from hlater, if_true]
        exact concludes_produce hmake hmake
      | false =>
        exact ((calm_warn _).spared.bind fun _ _ _ => spared_keep _ []).concludes
    · exact (spared_keep _ []).concludes

theorem concludes_load : Concludes f (Wanting f i s) s (load f.alone i) (load f i) := by
  simp only [load]
  split
  · refine ((spared_need _ _).bind fun index _ _ => ?_).concludes
    exact (spared_argument index).bind fun _ _ _ => spared_keep _ []
  · refine ((spared_need _ _).bind fun index _ _ => ?_).concludes
    exact (spared_getLocal index).bind fun _ _ _ => spared_keep _ []
  · exact (spared_keep _ []).concludes
  · exact (spared_keep _ []).concludes
  · exact (spared_keep _ []).concludes
  · exact (spared_keep _ []).concludes
  · exact (spared_keep _ []).concludes
  · exact concludes_loadField
  · exact concludes_loadField
  · refine ((spared_need _ _).bind fun field _ _ => ?_).concludes
    exact (calm_fieldVariable field).spared.bind fun _ _ _ => spared_keep _ []
  · exact ((spared_need _ _).bind fun _ _ _ => spared_keep _ []).concludes
  · exact concludes_loadElement
  · exact concludes_loadLength
  · exact concludes_newArray
  · exact concludes_newObject
  · exact (Spared.throw rfl).concludes

theorem concludes_storeLocal :
    Concludes f (Wanting f i s) s (storeLocal f.alone i) (storeLocal f i) := by
  rw [storeLocal, storeLocal, popOperand_alone]
  refine .bind (spared_need _ _) fun index t h => ?_
  obtain ⟨_, rfl⟩ := need_ok h
  refine .bind spared_popOperand fun item t _ => ?_
  split
  · next delegate _ =>
    cases hv : t.locals[index.toNat]? with
    | none =>
      obtain ⟨reason, hrun⟩ := getLocal_missing (f := f) hv
      have hbind : bindLocal f index delegate.invoke t = _ := bind_fails hrun
      rw [Concludes, Finishes, bind_fails hbind]
      exact ⟨rfl, fun hlocal => absurd hlocal Bool.false_ne_true⟩
    | some v =>
      have hbind : bindLocal f index delegate.invoke t = _ := bind_run (getLocal_run hv)
      rw [Concludes, Finishes, bind_run (hbind.trans rfl)]
      exact ⟨rfl, .inl rfl⟩
  · refine ((spared_getLocal index).bind fun v t _ => ?_).concludes
    split
    · exact .pure _
    · exact (calm_assign f v item).spared

theorem calm_storeIn (field : FieldRef) (item : Item) : Calm (storeIn f field item) := by
  rw [storeIn]
  split
  · exact (calm_bindField _ _).bind fun _ => .pure _
  · exact (calm_fieldVariable field).bind fun v => calm_assign f v item

theorem calm_storeMember (field : FieldRef) (holder item : Item) :
    Calm (storeMember f field holder item) :=
  (calm_stagePair holder item).bind fun _ => .pure _

theorem concludes_store : Concludes f (Wanting f i s) s (store f.alone i) (store f i) := by
  simp only [store]
  split
  · exact concludes_storeLocal
  · refine ((spared_need _ _).bind fun index t h => ?_).concludes
    obtain ⟨_, rfl⟩ := need_ok h
    refine spared_popOperand.bind fun item t _ => ?_
    exact (spared_parameter index).bind fun v t _ => (calm_assign f v item).spared
  · refine ((spared_need _ _).bind fun field t h => ?_).concludes
    obtain ⟨_, rfl⟩ := need_ok h
    exact spared_popOperand.bind fun item t _ => (calm_storeIn field item).spared
  · refine ((spared_need _ _).bind fun field t h => ?_).concludes
    obtain ⟨_, rfl⟩ := need_ok h
    refine spared_popPair.bind fun pair t _ => ?_
    dsimp only
    split
    · exact (calm_storeMember field pair.1 pair.2).spared
    · exact (calm_storeIn field pair.2).spared
  · refine (spared_popTriple.bind fun triple t _ => ?_).concludes
    exact ((calm_stage _).bind fun _ => (calm_stage _).bind fun _ => (calm_stage _).bind fun _ =>
      .pure _).spared
  · exact (Spared.throw rfl).concludes

end Lower

def WritesLast (name : String) (x : Lower (List Instruction)) : Prop :=
  ∀ s, ∃ front last t, x s = .ok (front ++ [last]) t ∧ last.assigned = [name] ∧
    t.stack = s.stack ∧ Spares s t

namespace Lower

theorem writesLast_joinTexts {v : Variable} (first : Value) {values : List Value}
    (h : values ≠ []) : WritesLast v.name (joinTexts v.value first values) := by
  induction values generalizing first with
  | nil => exact absurd rfl h
  | cons second rest ih =>
    cases rest with
    | nil => exact fun s => ⟨[], _, s, rfl, assigned_result rfl v _, rfl, .refl s⟩
    | cons third rest =>
      intro s
      obtain ⟨w, t, hrun, hstack, hspares⟩ := calm_temporary "String" s
      obtain ⟨front, last, u, hrun', hlast, hstack', hspares'⟩ :=
        ih w.value (List.cons_ne_nil _ _) t
      refine ⟨{ opcode := .strcat, arguments := [w.value, first, second] } :: front, last, u, ?_,
        hlast, hstack'.trans hstack, hspares.trans hspares'⟩
      rw [joinTexts, bind_run hrun, bind_run hrun']
      · rfl
      · exact List.cons_ne_nil third rest

theorem writesLast_assign (v : Variable) (value : Value) :
    WritesLast v.name (pure [.assign v.name value]) :=
  fun s => ⟨[], _, s, rfl, rfl, rfl, .refl s⟩

end Lower

theorem WritesLast.delivers {d : Destination} {x : Lower (List Instruction)}
    (h : WritesLast d.written.name x) (code : List Instruction) :
    Delivers d (do
      let joined ← x
      let rest ← Lower.finish d
      return code ++ joined ++ rest) := by
  intro s
  obtain ⟨front, last, t, hrun, hlast, hstack, hspares⟩ := h s
  obtain ⟨rest, u, hfinish, _⟩ := Lower.finish_run d t
  refine ⟨code ++ front, last, t, rest, u, ?_, hfinish, hlast, hstack, hspares⟩
  rw [bind_run hrun, bind_run hfinish]
  simp only [List.append_assoc, List.singleton_append]
  rfl

namespace Lower

theorem concludes_concat (items : List Item) :
    Concludes f want s (concat f.alone items) (concat f items) := by
  refine concludes_result (fun d => ?_) fun hnone => pushes_result hnone fun d => ?_
  all_goals
    refine (calm_stageAll items).delivers fun (code, values) => ?_
    dsimp only
    split
    · exact (writesLast_assign d.written _).delivers code
    · exact (writesLast_assign d.written _).delivers code
    · next first rest hmany _ => exact (writesLast_joinTexts first hmany).delivers code

theorem concludes_equality (items : List Item) (inequality : Bool) :
    Concludes f want s (equality f.alone items inequality) (equality f items inequality) := by
  simp only [equality]
  split
  · next a b =>
    refine .bind (spared_modify fun _ => ⟨rfl, rfl, rfl⟩) fun _ t _ => ?_
    refine .bind (calm_stagePair a b).spared fun staged u _ => ?_
    obtain ⟨code, lhs, rhs⟩ := staged
    have hpending (offset : Option UInt32) : Spared want u (do
        modify fun s => { s with skipTo := offset }
        push { content := .comparison .cmpEq lhs rhs, type := "Bool" }
        return code) := ⟨rfl, rfl, rfl⟩
    simp only [f.next?_alone]
    cases hnext : f.next? with
    | none => exact (hpending none).concludes
    | some next =>
      dsimp only
      split
      · refine concludes_result (fun d => ?_) fun _ => ⟨_, _, _, rfl, rfl, rfl, rfl⟩
        refine Calm.delivers (fun _ => ⟨(), _, rfl, rfl, rfl, rfl, rfl⟩) fun _ => ?_
        have hmade : Instruction.assigned { opcode := .cmpEq, arguments := [d.value, lhs, rhs] } =
            [d.written.name] := assigned_result rfl d.written _
        cases inequality with
        | false => exact delivers_last hmade fun _ => rfl
        | true =>
          have hnot : (negation d.value).assigned = [d.written.name] :=
            assigned_result rfl d.written [d.value]
          exact delivers_last hnot fun _ => (List.append_assoc code [_] _).symm
      · exact (hpending (some next.offset)).concludes
  · exact (Spared.throw rfl).concludes

theorem concludes_property (callee : MethodRef) (items : List Item) (location : Location) :
    Concludes f want s (property f.alone callee items location)
      (property f callee items location) := by
  simp only [property]
  split
  · exact (Spared.throw rfl).concludes
  · refine .bind (x := propertyName f callee location) (spared_propertyName callee location)
      fun name t _ => ?_
    split
    · exact concludes_produce (fun _ => rfl) fun _ => rfl
    · apply Spared.concludes
      simp only [writeProperty]
      split
      · exact .throw rfl
      · exact ((calm_stage _).bind fun _ => .pure _).spared

theorem assigned_callInstruction (location : Location) (name : String) (arguments : List Value)
    (v : Variable) : (callInstruction location name arguments v.value).assigned = [v.name] := by
  cases location <;> rfl

theorem concludes_plainCall (callee : MethodRef) (items : List Item) (receiver : Receiver) :
    Concludes f want s (plainCall f.alone callee items receiver)
      (plainCall f callee items receiver) := by
  refine .bind (calm_stageAll items).spared fun staged t _ => ?_
  exact concludes_produce (assigned_callInstruction _ _ _) (assigned_callInstruction _ _ _)

theorem concludes_callBody (callee : MethodRef) (declaration : Option MethodDecl)
    (items : List Item) (receiver : Receiver) :
    Concludes f want s (callBody f.alone callee declaration items receiver)
      (callBody f callee declaration items receiver) := by
  simp only [callBody]
  split
  · exact (Spared.pure _).concludes
  · split
    · exact concludes_concat items
    · split
      · exact concludes_equality items false
      · split
        · exact concludes_equality items true
        · split
          · exact concludes_property callee items _
          · exact concludes_plainCall callee items receiver

/-- A call on an object finds none below its arguments if these are the whole stack. -/
theorem wanting_receiver {callee : MethodRef} {items : List Item} {t : Simulation}
    (hcategory : i.code.category = .call) (hcallee : i.method? = some callee)
    (hobject : (callee.convention = .thisCall || callee.hasThis) = true)
    (hpop : popMany f i (i.pop.count callee.parameters.length s.stack.length) s = .ok items t)
    (hstack : t.stack = []) :
    Wanting f i s (.stackUnderflow f.method.name i.offset
      (i.pop.count callee.parameters.length s.stack.length + 1) 0) t := by
  obtain ⟨hle, _, rfl⟩ := popMany_ok hpop
  have hcount := Nat.le_antisymm hle (List.drop_eq_nil_iff.1 hstack)
  have hlacks : lacksReceiver i s.stack = true := by
    simp only [lacksReceiver, hcategory, hcallee, hobject, hcount, beq_self_eq_true, Bool.and_self]
  rw [hcount, List.drop_length]
  exact .receiver hlacks

theorem concludes_call (hcategory : i.code.category = .call) :
    Concludes f (Wanting f i s) s (call f.alone i) (call f i) := by
  simp only [call, popMany_alone]
  refine .bind (spared_need _ _) fun callee t h => ?_
  obtain ⟨hcallee, rfl⟩ := need_ok h
  refine .bind (Spared.get (k := pure) (.pure _)) fun _ _ h => ?_
  cases h
  refine .bind (spared_popMany _) fun items t hpop => ?_
  split
  · next hobject =>
    refine .bind (x := instanceReceiver f i _) (spared_instanceReceiver _ ?_) fun receiver u _ => ?_
    -- the arguments are off the stack by now, and the fault tells what is left
    · exact wanting_receiver hcategory hcallee hobject hpop
    · exact (concludes_callBody callee _ items receiver).append_left receiver.code
  · refine .bind (x := plainReceiver f callee _) (spared_plainReceiver callee _)
      fun receiver u _ => ?_
    exact (concludes_callBody callee _ items receiver).append_left receiver.code

/-- An instruction that does not branch adds no join, and only absorbs what it could have left to
the store behind it. -/
theorem concludes_step (h : i.code.category ≠ .branch) :
    Concludes f (Wanting f i s) s (step f.alone i) (step f i) := by
  simp only [step]
  cases hcategory : i.code.category with
  | branch => exact absurd hcategory h
  | nop => exact (Spared.pure _).concludes
  | load => exact concludes_load
  | store => exact concludes_store
  | call => exact concludes_call hcategory
  | conditional => exact concludes_conditional
  | ret => exact concludes_giveBack
  | arithmetic => exact concludes_arithmetic
  | stack => exact concludes_shuffle

theorem step_error {fault : Fault} {t : Simulation} (h : step f i s = .error fault t) :
    t.skipNext = s.skipNext ∧ (fault.isLocal = true → Wanting f i s fault t) := by
  by_cases hbranch : i.code.category = .branch
  · rw [step, hbranch] at h
    exact branch_fails hbranch h
  · have hconcludes := concludes_step (f := f) (s := s) hbranch
    rw [Concludes, Finishes, h] at hconcludes
    exact hconcludes

theorem step_joins {code : List Instruction} {t : Simulation} (hbranch : i.code.category ≠ .branch)
    (h : step f i s = .ok code t) : t.joins = s.joins := by
  have hconcludes := concludes_step (f := f) (s := s) hbranch
  rw [Concludes, Finishes, h] at hconcludes
  exact hconcludes.1

theorem step_absorbs {code : List Instruction} {t : Simulation} (h : step f i s = .ok code t)
    (hskip : t.skipNext ≠ s.skipNext) :
    ∃ made alone store v, step f.alone i s = .ok made alone ∧ Absorbs f s code t store v alone := by
  by_cases hbranch : i.code.category = .branch
  · rw [step, hbranch] at h
    obtain ⟨_, _, _, _, _, _, _, _, hdecides, hspilled⟩ := branch_flows hbranch h
    exact absurd (hspilled.skipNext.trans hdecides.spares.1.skipNext) hskip
  · have hconcludes := concludes_step (f := f) (s := s) hbranch
    rw [Concludes, Finishes, h] at hconcludes
    exact hconcludes.2.resolve_left hskip

end Lower

end PapyrusBackend.Lowering
