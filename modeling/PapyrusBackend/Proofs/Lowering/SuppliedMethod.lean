import PapyrusBackend.Proofs.Lowering.Joins
import PapyrusBackend.Proofs.Lowering.SupplyCall

namespace PapyrusBackend

def Source.MethodDecl.fieldOperands (m : MethodDecl) : List FieldRef :=
  m.body.filterMap Instr.field?

namespace Lowering

open Source

/-- The stack that a store finds: where it is lowered, or where it would have been lowered if the
instruction in front of it had not made it as well. -/
inductive Meets (setting : Setting) (m : MethodDecl) : Instr → Stack → Prop
  | lowered {q : Nat} {store : Instr} {s : Simulation} (hstore : m.body[q]? = some store)
      (hs : stateAt? setting m q = some s) (hskip : s.skipNext = false) :
      Meets setting m store s.stack
  | absorbed {q : Nat} {i store : Instr} {s t alone : Simulation} {code made : List Instruction}
      (hi : m.body[q]? = some i) (hs : stateAt? setting m q = some s) (hskip : s.skipNext = false)
      (hstore : m.body[q + 1]? = some store)
      (hrun : Lower.step { setting.frame m with position := q } i s = .ok code t)
      (habsorbed : t.skipNext = true)
      (halone : Lower.step (Frame.alone { setting.frame m with position := q }) i s = .ok made alone) :
      Meets setting m store alone.stack

theorem Meets.mem {setting : Setting} {m : MethodDecl} {store : Instr} {stack : Stack}
    (h : Meets setting m store stack) : store ∈ m.body := by
  cases h with
  | lowered hstore => exact List.mem_of_getElem? hstore
  | absorbed _ _ _ hstore => exact List.mem_of_getElem? hstore

theorem Meets.fieldOperand {setting : Setting} {m : MethodDecl} {store : Instr} {stack : Stack}
    (h : Meets setting m store stack) {field : FieldRef} (hfield : store.field? = some field) :
    field ∈ m.fieldOperands :=
  List.mem_filterMap.2 ⟨store, h.mem, hfield⟩

def WritesAt (setting : Setting) (m : MethodDecl) (name : String) : Prop :=
  ∃ store stack, Meets setting m store stack ∧ Writes (setting.frame m) store stack name

variable {setting : Setting} {m : MethodDecl} {base : String → Prop} {code : List Instruction}
  {s t : Simulation}

theorem endsAssigning_concat {front : List Instruction} {last : Instruction} {name : String} :
    EndsAssigning (front ++ [last]) name ↔ last.assigned = [name] := by
  constructor
  · rintro ⟨front', last', hcode, hlast⟩
    cases (List.append_inj' hcode rfl).2
    exact hlast
  · exact fun h => ⟨front, last, rfl, h⟩

/-- If code makes the store behind it and its last instruction assigns something, then what the
store would have written: a local, or a variable that the stack decides on. -/
theorem Absorbs.writes {f : Frame} {store : Instr} {v : Variable} {alone : Simulation}
    (h : Absorbs f s code t store v alone) {name : String} (hname : EndsAssigning code name) :
    (∃ w ∈ s.locals, w.isDelegate = false ∧ w.name = name) ∨ Writes f store alone.stack name := by
  obtain ⟨item, holders, hitem, hstack, hends⟩ := h.stack
  have hstored := h.stored
  rw [hstack]
  cases hends with
  | «variable» hcode hlast =>
    cases hlast.symm.trans (endsAssigning_concat.1 hname)
    cases hstore : store.code with
    | stloc =>
      simp only [storeVariable?, hstore, Option.bind_eq_some_iff] at hstored
      obtain ⟨index, _, hv⟩ := hstored
      exact .inl ⟨v, List.mem_of_getElem? hv, h.plain, rfl⟩
    | starg =>
      simp only [storeVariable?, hstore, Option.bind_eq_some_iff] at hstored
      obtain ⟨index, hindex, hv⟩ := hstored
      exact .inr (.argument hstore hindex hv)
    | stsfld =>
      simp only [storeVariable?, hstore, Option.map_eq_some_iff] at hstored
      obtain ⟨field, hfield, rfl⟩ := hstored
      exact .inr (.field (.static hstore hfield hitem))
    | stfld => exact absurd hstore hcode
    | _ =>
      simp only [storeVariable?, hstore] at hstored
      cases hstored
  | field hcode hholder hlast =>
    cases hlast.symm.trans (endsAssigning_concat.1 hname)
    simp only [storeVariable?, hcode, Option.map_eq_some_iff] at hstored
    obtain ⟨field, hfield, rfl⟩ := hstored
    exact .inr (.field (.instance hcode hfield hitem hholder))
  | member => cases endsAssigning_concat.1 hname

/-- Where an instruction stands does not matter for what it writes. -/
theorem Writes.unplaced {f : Frame} {position : Nat} {store : Instr} {stack : Stack}
    {name : String} (h : Writes { f with position } store stack name) :
    Writes f store stack name := by
  cases h with
  | argument hcode hindex hv => exact .argument hcode hindex hv
  | field h => exact .field h

theorem Vocabulary.at {f : Frame} (h : Vocabulary base f) (position : Nat) :
    Vocabulary base { f with position } :=
  ⟨h.empty, h.this, h.parameters, h.body, h.properties, h.coerce⟩

/-- What an instruction does at its place. The store that it may have made is one that the method
meets. -/
theorem served_step {q : Nat} {i : Instr} (hi : m.body[q]? = some i)
    (hvocabulary : Vocabulary base (setting.frame m)) (hat : stateAt? setting m q = some s)
    (hskip : s.skipNext = false) (hs : Served base (WritesAt setting m) code s) :
    Ends (Served base (WritesAt setting m) code)
      (fun emitted => Served base (WritesAt setting m) (code ++ emitted))
      (Lower.step { setting.frame m with position := q } i s) := by
  have hends := Lower.supplies_step (hvocabulary.at q) (List.mem_of_getElem? hi) s
    ⟨hs, fun name hname => ⟨i, s.stack, .lowered hi hat hskip, hname.unplaced⟩⟩
  cases hrun : Lower.step { setting.frame m with position := q } i s with
  | error fault t =>
    rw [hrun] at hends
    exact hends
  | ok emitted t =>
    rw [hrun] at hends
    refine hends.mono_stray fun name hname => ?_
    obtain hname | ⟨hmark, hlast⟩ := hname
    · exact .inr hname
    · have hchanged : t.skipNext ≠ s.skipNext := by
        rw [hmark, hskip]
        exact Bool.false_ne_true.symm
      obtain ⟨made, alone, store, v, halone, habsorbs⟩ := Lower.step_absorbs hrun hchanged
      obtain ⟨w, hw, hplain, rfl⟩ | hwrites := habsorbs.writes hlast
      · have hbecomes := Lower.evolves_step (f := { setting.frame m with position := q })
          (i := i) (s := s)
        rw [Evolves, hrun] at hbecomes
        have hdeclared := (hs.familiar.locals w hw).2 hplain
        exact .inl ((hbecomes.variables.map TypedName.name).subset hdeclared)
      · exact .inr ⟨store, alone.stack, .absorbed hi hat hskip habsorbs.next hrun hmark halone,
          hwrites.unplaced⟩

theorem Handled.served {q : Nat} {i : Instr} (hi : m.body[q]? = some i) {before : List Segment}
    (hbefore : runTo setting m q = .ok before s) {fate : Fate} {segment : Segment}
    (h : Handled { setting.frame m with position := q } setting.policy i s fate segment t)
    (hvocabulary : Vocabulary base (setting.frame m))
    (hs : Served base (WritesAt setting m) code s) :
    Served base (WritesAt setting m) (code ++ segment.instructions) t := by
  have hmarked : Served base (WritesAt setting m) code { s with skipTo := none } :=
    stable_supplies s _ ⟨rfl, rfl, rfl, rfl, rfl, fun _ => id⟩ hs
  -- the instruction itself is lowered in the simulation that its place is entered with
  have harrived {entry : List Instruction} {s' : Simulation} (hskip : s.skipNext = false)
      (hentry : Lower.enter { setting.frame m with position := q } i.offset
        { s with skipTo := none } = .ok entry s') :
      Ends (Served base (WritesAt setting m) (code ++ entry))
        (fun emitted => Served base (WritesAt setting m) (code ++ entry ++ emitted))
        (Lower.step { setting.frame m with position := q } i s') := by
    have henter : Triple (Served base (WritesAt setting m) code)
        (Served base (WritesAt setting m) code)
        (Lower.enter { setting.frame m with position := q } i.offset) fun entry =>
          Served base (WritesAt setting m) (code ++ entry) :=
      Lower.supplies_enter (hvocabulary.at q) i.offset
    exact served_step hi hvocabulary (stateAt?_of_enter hi hbefore hskip hentry)
      ((enter_entered hentry).skipNext.trans hskip) (henter.ok hmarked hentry)
  cases h with
  | processed hskip hentry hcode =>
    have hstep := harrived hskip hentry
    rw [hcode] at hstep
    rw [Segment.instructions, ← List.append_assoc]
    exact hstep
  | @dropped _ s' u _ message hskip hentry hcode hlocal _ hempty =>
    have hstep := harrived hskip hentry
    rw [hcode] at hstep
    rw [Segment.instructions, hempty, List.append_nil]
    exact stable_supplies u _ ⟨rfl, rfl, rfl, rfl, rfl, fun _ => id⟩ (hstep hlocal)
  | absorbed hskip hempty =>
    rw [hempty, List.append_nil]
    exact hs.restack hs.familiar.items rfl rfl rfl fun _ => id

theorem served_runTo {segments : List Segment} {last : Simulation}
    (hrun : Lower.visitAll (setting.frame m) setting.policy 0 0 m.body
      (.start m setting.owner.delegateBindings) = .ok segments last)
    (hvocabulary : Vocabulary base (setting.frame m))
    (hstart : Served base (WritesAt setting m) [] (.start m setting.owner.delegateBindings))
    {q : Nat} (hq : q ≤ m.body.length) :
    ∃ before s, runTo setting m q = .ok before s ∧
      Served base (WritesAt setting m) (before.flatMap Segment.instructions) s := by
  induction q with
  | zero => exact ⟨[], _, rfl, hstart⟩
  | succ q ih =>
    obtain ⟨before, s, hbefore, hs⟩ := ih (Nat.le_of_succ_le hq)
    have hi : m.body[q]? = some m.body[q] := List.getElem?_eq_getElem hq
    obtain ⟨before', s', segment, t, fate, hbefore', hnext, hhandled, _⟩ := exists_handled hrun hi
    cases hbefore'.symm.trans hbefore
    refine ⟨before ++ [segment], t, hnext, ?_⟩
    rw [List.flatMap_append, List.flatMap_singleton]
    exact hhandled.served hi hbefore hvocabulary hs

theorem served_last {segments : List Segment} {last : Simulation}
    (hrun : Lower.visitAll (setting.frame m) setting.policy 0 0 m.body
      (.start m setting.owner.delegateBindings) = .ok segments last)
    (hvocabulary : Vocabulary base (setting.frame m))
    (hstart : Served base (WritesAt setting m) [] (.start m setting.owner.delegateBindings)) :
    Served base (WritesAt setting m) (segments.flatMap Segment.instructions) last := by
  obtain ⟨before, s, hbefore, hs⟩ :=
    served_runTo hrun hvocabulary hstart (Nat.le_refl m.body.length)
  rw [runTo, List.take_length, hrun] at hbefore
  cases hbefore
  exact hs

/-- Nothing is on the stack at the start, and all locals but delegates are declared. -/
theorem served_start {stray : String → Prop} {bindings : Bindings}
    (hlocals : ∀ v ∈ localVariables m, base v.name)
    (hbindings : ∀ entry ∈ bindings, base entry.2) :
    Served base stray [] (.start m bindings) where
  fed := .nil
  assigned name hname := absurd hname List.not_mem_nil
  familiar :=
    { items := fun item hitem => absurd hitem List.not_mem_nil
      joins := fun join hjoin => absurd hjoin List.not_mem_nil
      locals := fun v hv => by
        refine ⟨.of_known (.inl (hlocals v hv)) ?_, fun hdelegate => ?_⟩
        · obtain ⟨k, hk, rfl⟩ := List.mem_mapIdx.1 hv
          exact fun _ h => (by cases h)
        · refine List.mem_map.2 ⟨v.declaration, List.mem_map_of_mem ?_, rfl⟩
          exact List.mem_filter.2 ⟨hv, by rw [hdelegate]; rfl⟩
      delegates := fun entry hentry => .inl (hbindings entry hentry) }

section

variable (owner : String) (land : UInt32 → Nat) (k : Nat)

/-- An instruction at its position reads and writes the same. -/
theorem Emitted.accesses_placed {i : Instr} {j : Instruction} (h : Emitted i j) :
    (placed owner land k j).reads = j.reads ∧ (placed owner land k j).assigned = j.assigned := by
  cases h with
  | plain hplain =>
    rw [placed_of_target_eq_none owner land k hplain.target]
    exact ⟨rfl, rfl⟩
  | jump hcode htarget => exact ⟨rfl, rfl⟩
  | jumpIf expected condition hcode htarget => cases expected <;> exact ⟨rfl, rfl⟩

end

structure SuppliedBody (base stray : String → Prop) (body : Body) : Prop where
  reads : ∀ (k : Nat) (i : Instruction), body.instructions[k]? = some i → ∀ name ∈ i.reads,
    base name ∨ ∃ j < k, ∃ w : Instruction, body.instructions[j]? = some w ∧ name ∈ w.assigned
  assigned : ∀ i ∈ body.instructions, ∀ name ∈ i.assigned,
    name ∈ body.variables.map TypedName.name ∨ stray name

theorem suppliedBody_assemble {stray : String → Prop} {segments : List Segment}
    {last : Simulation} (hserves : List.Forall₂ Segment.Serves m.body segments)
    (hserved : Served base stray (segments.flatMap Segment.instructions) last) :
    SuppliedBody base stray (assemble m.name last.variables segments) where
  reads k i hi name hname := by
    obtain ⟨j, hj, ⟨source, _, hemitted⟩, rfl⟩ := exists_assembled hserves hi
    rw [(hemitted.accesses_placed _ _ _).1] at hname
    obtain hbase | hassigned := hserved.fed k j hj name hname
    · exact .inl hbase
    · obtain ⟨w, hw, hwritten⟩ := List.mem_flatMap.1 hassigned
      obtain ⟨n, hn⟩ := List.mem_iff_getElem?.1 hw
      have hlt : n < k := by
        have hlength := (List.getElem?_eq_some_iff.1 hn).1
        exact Nat.lt_of_lt_of_le hlength (List.length_take_le _ _)
      rw [List.getElem?_take_of_lt hlt] at hn
      have hplaced := assemble_getElem? m.name last.variables segments n
      rw [hn] at hplaced
      obtain ⟨_, hn', ⟨_, _, hemitted'⟩, _⟩ := exists_assembled hserves hplaced
      cases hn'.symm.trans hn
      refine .inr ⟨n, hlt, _, hplaced, ?_⟩
      rw [(hemitted'.accesses_placed _ _ _).2]
      exact hwritten
  assigned i hi name hname := by
    obtain ⟨k, hk⟩ := List.mem_iff_getElem?.1 hi
    obtain ⟨j, hj, ⟨source, _, hemitted⟩, rfl⟩ := exists_assembled hserves hk
    rw [(hemitted.accesses_placed _ _ _).2] at hname
    exact hserved.assigned name (List.mem_flatMap.2 ⟨j, List.mem_of_getElem? hj, hname⟩)

theorem lowerMethod_suppliedBody {result : LoweredMethod} (h : lowerMethod setting m = .ok result)
    (hvocabulary : Vocabulary base (setting.frame m))
    (hlocals : ∀ v ∈ localVariables m, base v.name)
    (hbindings : ∀ entry ∈ setting.owner.delegateBindings, base entry.2) :
    SuppliedBody base (WritesAt setting m) result.method.body := by
  obtain hempty | ⟨segments, last, hrun, hbody⟩ := lowerMethod_ok h
  · refine ⟨fun k i hi => ?_, fun i hi => ?_⟩
    · rw [hempty] at hi
      cases hi
    · rw [hempty] at hi
      cases hi
  · rw [hbody]
    refine suppliedBody_assemble (Lower.visitAll_serves (Lower.awaits_start m _) hrun) ?_
    exact served_last hrun hvocabulary (served_start hlocals hbindings)

end Lowering

end PapyrusBackend
