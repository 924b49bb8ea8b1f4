import PapyrusBackend.Lowering.Memory
import PapyrusBackend.Proofs.Lowering.Confined

namespace PapyrusBackend.Lowering

open Source

def argumentCount (i : Instr) (depth : Nat) : Nat :=
  match i.method? with
  | some callee => i.pop.count callee.parameters.length depth
  | none => 0

/-- One, if the object whose method runs lies on the stack and may be meant by a call. -/
def thisCount (declaration : Option MethodDecl) (stack : Stack) : Nat :=
  let mayHaveThis := match declaration with
    | some d => !d.isStatic
    | none => true
  let this := match stack with
    | item :: _ => mayHaveThis && item.isThis
    | [] => false
  if this then 1 else 0

def receiverCount (f : Frame) (i : Instr) (stack : Stack) : Nat :=
  match i.method? with
  | some callee =>
    if callee.convention = .thisCall || callee.hasThis then 1
    else thisCount ((f.program.method? callee).map Prod.snd) stack
  | none => 0

def operandCount (f : Frame) (i : Instr) (stack : Stack) : Nat :=
  match i.code with
  | .newobj => argumentCount i stack.length
  | .call | .callvirt =>
    let arguments := argumentCount i stack.length
    arguments + receiverCount f i (stack.drop arguments)
  | code => code.defaultPop.count 0 0

variable {f : Frame} {i : Instr} {n : Nat} {s t : Simulation} {code : List Instruction}

namespace Lower

theorem arithmetic_confined (hs : Sound s) (hcategory : i.code.category = .arithmetic)
    (h : arithmetic f i s = .ok code t) :
    Confined (operandCount f i s.stack + holderCount f) s code t := by
  rw [arithmetic] at h
  cases hcode : i.code with
  | neg | not =>
    simp only [hcode] at h
    simp only [operandCount, hcode]
    exact unary_confined hs h
  | add | sub | mul | div | rem =>
    simp only [hcode] at h
    simp only [operandCount, hcode]
    exact binary_confined hs h
  | _ =>
    rw [hcode] at hcategory
    cases hcategory

theorem loadField_confined (h : loadField f i s = .ok code t) : Confined n s code t := by
  obtain ⟨field, t', _, hload⟩ := bind_ok h
  obtain ⟨holder, t'', _, hload⟩ := bind_ok hload
  split at hload
  · cases hcontent : holder.content with
    | held source =>
      simp only [hcontent] at hload
      cases hload
      exact .of_scratch .nil
    | _ =>
      simp only [hcontent] at hload
      cases hload
  · obtain ⟨v, u, _, hpush⟩ := bind_ok hload
    cases hpush
    exact .of_scratch .nil

theorem loadElement_confined (hs : Sound s) (h : loadElement f i s = .ok code t) :
    Confined (2 + holderCount f) s code t := by
  obtain ⟨⟨array, index⟩, t', hpop, hload⟩ := bind_ok h
  obtain ⟨htaken, harray, hindex⟩ := popPair_taken hpop
  obtain ⟨⟨staging, lhs, rhs⟩, t'', hstage, hproduce⟩ := bind_ok hload
  exact produce_after hs htaken (stagePair_ok (hs array harray) (hs index hindex) hstage)
    (fun v => assigned_result rfl v _) hproduce

theorem loadLength_confined (hs : Sound s) (h : loadLength f i s = .ok code t) :
    Confined (1 + holderCount f) s code t := by
  obtain ⟨array, t', hpop, hload⟩ := bind_ok h
  obtain ⟨htaken, harray⟩ := popOperand_taken hpop
  obtain ⟨staged, t'', hstage, hproduce⟩ := bind_ok hload
  exact produce_after hs htaken (stage_ok (hs array harray) hstage)
    (fun v => assigned_result rfl v _) hproduce

theorem newArray_confined (hs : Sound s) (h : newArray f i s = .ok code t) :
    Confined (1 + holderCount f) s code t := by
  obtain ⟨element, t', hneed, hnew⟩ := bind_ok h
  obtain ⟨_, rfl⟩ := need_ok hneed
  obtain ⟨size, t'', hpop, hload⟩ := bind_ok hnew
  obtain ⟨htaken, hsize⟩ := popOperand_taken hpop
  obtain ⟨staged, u, hstage, hproduce⟩ := bind_ok hload
  exact produce_after hs htaken (stage_ok (hs size hsize) hstage)
    (fun v => assigned_result rfl v _) hproduce

theorem newObject_confined (hs : Sound s) (h : newObject f i s = .ok code t) :
    Confined (argumentCount i s.stack.length + holderCount f) s code t := by
  obtain ⟨ctor, t', hneed, hnew⟩ := bind_ok h
  obtain ⟨hctor, rfl⟩ := need_ok hneed
  obtain ⟨_, _, hget, hnew⟩ := bind_ok hnew
  cases hget
  obtain ⟨items, t'', hpop, hnew⟩ := bind_ok hnew
  obtain ⟨htaken, _⟩ := popMany_taken hpop
  have hcount : argumentCount i t'.stack.length =
      i.pop.count ctor.parameters.length t'.stack.length := by
    simp only [argumentCount, hctor]
  rw [hcount]
  dsimp only at hnew
  split at hnew
  · cases hnew
    exact .of_scratch .nil
  · split at hnew
    · split at hnew
      · exact produce_after hs htaken ⟨.refl t'', .nil⟩ (fun v => assigned_result rfl v _) hnew
      · obtain ⟨_, u, _, hpush⟩ := bind_ok hnew
        cases hpush
        exact .of_scratch .nil
    · cases hnew
      exact .of_scratch .nil

theorem load_confined (hs : Sound s) (h : load f i s = .ok code t) :
    Confined (operandCount f i s.stack + holderCount f) s code t := by
  rw [load] at h
  cases hcode : i.code with
  | ldarg | ldloc | ldsfld =>
    simp only [hcode] at h
    obtain ⟨_, t', _, hload⟩ := bind_ok h
    obtain ⟨_, t'', _, hpush⟩ := bind_ok hload
    cases hpush
    exact .of_scratch .nil
  | ldcI4 | ldcR4 | ldcR8 | ldstr | ldnull =>
    simp only [hcode] at h
    cases h
    exact .of_scratch .nil
  | ldftn =>
    simp only [hcode] at h
    obtain ⟨_, t', _, hpush⟩ := bind_ok h
    cases hpush
    exact .of_scratch .nil
  | ldfld | ldflda =>
    simp only [hcode] at h
    exact loadField_confined h
  | ldelem =>
    simp only [hcode] at h
    simp only [operandCount, hcode]
    exact loadElement_confined hs h
  | ldlen =>
    simp only [hcode] at h
    simp only [operandCount, hcode]
    exact loadLength_confined hs h
  | newarr =>
    simp only [hcode] at h
    simp only [operandCount, hcode]
    exact newArray_confined hs h
  | newobj =>
    simp only [hcode] at h
    simp only [operandCount, hcode]
    exact newObject_confined hs h
  | _ =>
    simp only [hcode] at h
    cases h

theorem bindLocal_taken {index : UInt16} {invoke : Option String} {v : Variable}
    (h : bindLocal f index invoke s = .ok v t) : Taken 0 s t := by
  obtain ⟨w, t', hlocal, hbind⟩ := bind_ok h
  obtain ⟨_, rfl⟩ := getLocal_ok hlocal
  cases hbind
  exact ⟨rfl, rfl⟩

theorem storeLocal_taken (hs : Sound s) (h : storeLocal f i s = .ok code t) : Taken 1 s t := by
  obtain ⟨index, t', hneed, hstore⟩ := bind_ok h
  obtain ⟨_, rfl⟩ := need_ok hneed
  obtain ⟨item, t'', hpop, hassign⟩ := bind_ok hstore
  obtain ⟨htaken, hitem⟩ := popOperand_taken hpop
  cases hdelegate : item.delegate? with
  | some delegate =>
    simp only [hdelegate] at hassign
    obtain ⟨v, u, hbind, hpure⟩ := bind_ok hassign
    cases hpure
    exact htaken.trans (bindLocal_taken hbind)
  | none =>
    simp only [hdelegate] at hassign
    obtain ⟨v, u, hlocal, hassigned⟩ := bind_ok hassign
    obtain ⟨_, rfl⟩ := getLocal_ok hlocal
    split at hassigned
    · cases hassigned
      exact htaken
    · exact htaken.trans (assign_ok (hs item hitem) hassigned).1

theorem storeArgument_taken (hs : Sound s) (h : storeArgument f i s = .ok code t) :
    Taken 1 s t := by
  obtain ⟨index, t', hneed, hstore⟩ := bind_ok h
  obtain ⟨_, rfl⟩ := need_ok hneed
  obtain ⟨item, t'', hpop, hassign⟩ := bind_ok hstore
  obtain ⟨htaken, hitem⟩ := popOperand_taken hpop
  obtain ⟨v, u, hparameter, hassigned⟩ := bind_ok hassign
  cases parameter_state hparameter
  exact htaken.trans (assign_ok (hs item hitem) hassigned).1

theorem storeIn_taken {field : FieldRef} {item : Item} (hitem : item.isSound = true)
    (h : storeIn f field item s = .ok code t) : Taken 0 s t := by
  rw [storeIn] at h
  cases hdelegate : item.delegate? with
  | some delegate =>
    simp only [hdelegate] at h
    cases h
    exact ⟨rfl, rfl⟩
  | none =>
    simp only [hdelegate] at h
    obtain ⟨v, t', hv, hassigned⟩ := bind_ok h
    cases fieldVariable_state hv
    exact (assign_ok hitem hassigned).1

theorem storeField_taken (hs : Sound s) (h : storeField f i s = .ok code t) : Taken 2 s t := by
  obtain ⟨field, t', hneed, hstore⟩ := bind_ok h
  obtain ⟨_, rfl⟩ := need_ok hneed
  obtain ⟨⟨holder, item⟩, t'', hpop, hstore⟩ := bind_ok hstore
  obtain ⟨htaken, hholder, hitem⟩ := popPair_taken hpop
  dsimp only at hstore
  split at hstore
  · obtain ⟨⟨staging, lhs, rhs⟩, u, hstage, hpure⟩ := bind_ok hstore
    have hready := stagePair_ok (hs holder hholder) (hs item hitem) hstage
    cases hpure
    exact htaken.trans hready.taken
  · exact htaken.trans (storeIn_taken (hs item hitem) hstore)

theorem storeElement_taken (hs : Sound s) (h : storeElement f i s = .ok code t) : Taken 3 s t := by
  obtain ⟨⟨array, index, item⟩, t', hpop, hstore⟩ := bind_ok h
  obtain ⟨htaken, harray, hindex, hitem⟩ := popTriple_taken hpop
  obtain ⟨first, t₁, hfirst, hstore⟩ := bind_ok hstore
  obtain ⟨second, t₂, hsecond, hstore⟩ := bind_ok hstore
  obtain ⟨third, t₃, hthird, hpure⟩ := bind_ok hstore
  have hready := ((stage_ok (hs array harray) hfirst).trans
    (stage_ok (hs index hindex) hsecond)).trans (stage_ok (hs item hitem) hthird)
  cases hpure
  exact htaken.trans hready.taken

theorem store_taken (hs : Sound s) (h : store f i s = .ok code t) :
    Taken (i.code.defaultPop.count 0 0) s t := by
  rw [store] at h
  cases hcode : i.code with
  | stloc =>
    simp only [hcode] at h
    exact storeLocal_taken hs h
  | starg =>
    simp only [hcode] at h
    exact storeArgument_taken hs h
  | stsfld =>
    simp only [hcode] at h
    obtain ⟨field, t', hneed, hstore⟩ := bind_ok h
    obtain ⟨_, rfl⟩ := need_ok hneed
    obtain ⟨item, t'', hpop, hassign⟩ := bind_ok hstore
    obtain ⟨htaken, hitem⟩ := popOperand_taken hpop
    exact htaken.trans (storeIn_taken (hs item hitem) hassign)
  | stfld =>
    simp only [hcode] at h
    exact storeField_taken hs h
  | stelem =>
    simp only [hcode] at h
    exact storeElement_taken hs h
  | _ =>
    simp only [hcode] at h
    cases h

end Lower

end PapyrusBackend.Lowering
