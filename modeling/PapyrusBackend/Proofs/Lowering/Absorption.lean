import PapyrusBackend.Proofs.Lowering.Landing
import PapyrusBackend.Proofs.Lowering.LookAheadStep

namespace PapyrusBackend.Lowering

open Source

variable {f : Frame} {i : Instr} {s : Simulation}

namespace Lower

theorem popMany_run {n : Nat} (h : n ≤ s.stack.length) :
    popMany f i n s = .ok (s.stack.take n).reverse { s with stack := s.stack.drop n } := by
  rw [popMany, get_bind, Stack.popMany?, if_pos h]
  rfl

theorem popOperands_run {n : Nat} (hcount : i.pop.count n s.stack.length = n)
    (h : n ≤ s.stack.length) :
    popOperands f i n s = .ok (s.stack.take n).reverse { s with stack := s.stack.drop n } := by
  rw [popOperands, get_bind, hcount, if_pos rfl]
  exact popMany_run h

theorem popOperand_run {item : Item} {rest : Stack} (hpop : i.pop = .fixed 1)
    (hstack : s.stack = item :: rest) : popOperand f i s = .ok item { s with stack := rest } := by
  have hrun : popOperands f i 1 s = _ := popOperands_run (by rw [hpop]; rfl) (by simp [hstack])
  rw [popOperand, bind_run hrun, hstack]
  rfl

theorem popPair_run {a b : Item} {rest : Stack} (hpop : i.pop = .fixed 2)
    (hstack : s.stack = b :: a :: rest) : popPair f i s = .ok (a, b) { s with stack := rest } := by
  have hrun : popOperands f i 2 s = _ := popOperands_run (by rw [hpop]; rfl) (by simp [hstack])
  rw [popPair, bind_run hrun, hstack]
  rfl

theorem need_run {operand : Option α} {reason : String} {a : α} (h : operand = some a) :
    need operand reason s = .ok a s := by
  rw [h]
  rfl

end Lower

/-- The store of a variable takes the result and leaves the rest of the stack. -/
theorem store_variable {store : Instr} {v : Variable} {item : Item} {rest : Stack}
    (hstored : storeVariable? f s.locals store = some v) (hplain : v.isDelegate = false)
    (hcode : store.code ≠ .stfld) (hpop : store.pop = store.code.defaultPop)
    (hitem : item.delegate? = none) (hstack : s.stack = item :: rest) :
    ∃ code t, Lower.step f store s = .ok code t ∧ t.stack = rest := by
  cases hstore : store.code with
  | stloc =>
    simp only [storeVariable?, hstore, Option.bind_eq_some_iff] at hstored
    obtain ⟨index, hindex, hv⟩ := hstored
    rw [hstore] at hpop
    obtain ⟨code, t, hassign, hkept, _⟩ := Lower.calm_assign f v item { s with stack := rest }
    refine ⟨code, t, ?_, hkept⟩
    simp only [Lower.step, hstore, Code.category, Lower.store]
    rw [Lower.storeLocal, bind_run (Lower.need_run hindex),
      bind_run (Lower.popOperand_run hpop hstack), hitem]
    dsimp only
    rw [bind_run (Lower.getLocal_run (s := { s with stack := rest }) hv),
      if_neg (Bool.eq_false_iff.1 hplain)]
    exact hassign
  | starg =>
    simp only [storeVariable?, hstore, Option.bind_eq_some_iff] at hstored
    obtain ⟨index, hindex, hv⟩ := hstored
    rw [hstore] at hpop
    obtain ⟨code, t, hassign, hkept, _⟩ := Lower.calm_assign f v item { s with stack := rest }
    refine ⟨code, t, ?_, hkept⟩
    simp only [Lower.step, hstore, Code.category, Lower.store]
    rw [Lower.storeArgument, bind_run (Lower.need_run hindex),
      bind_run (Lower.popOperand_run hpop hstack), bind_run (Lower.parameter_run hv)]
    exact hassign
  | stsfld =>
    simp only [storeVariable?, hstore, Option.map_eq_some_iff] at hstored
    obtain ⟨field, hfield, _⟩ := hstored
    rw [hstore] at hpop
    obtain ⟨code, t, hassign, hkept, _⟩ :=
      Lower.calm_storeIn (f := f) field item { s with stack := rest }
    refine ⟨code, t, ?_, hkept⟩
    simp only [Lower.step, hstore, Code.category, Lower.store]
    rw [bind_run (Lower.need_run hfield), bind_run (Lower.popOperand_run hpop hstack)]
    exact hassign
  | stfld => exact absurd hstore hcode
  | _ =>
    simp only [storeVariable?, hstore] at hstored
    cases hstored

/-- The store into an object takes the object as well. -/
theorem store_field {store : Instr} {v : Variable} {item holder : Item} {rest : Stack}
    (hstored : storeVariable? f s.locals store = some v) (hcode : store.code = .stfld)
    (hpop : store.pop = store.code.defaultPop) (hstack : s.stack = item :: holder :: rest) :
    ∃ code t, Lower.step f store s = .ok code t ∧ t.stack = rest := by
  simp only [storeVariable?, hcode, Option.map_eq_some_iff] at hstored
  obtain ⟨field, hfield, _⟩ := hstored
  rw [hcode] at hpop
  have hcalm : Calm (if item.delegate?.isNone && Naming.isStruct holder.type then
      Lower.storeMember f field holder item else Lower.storeIn f field item) := by
    split
    · exact Lower.calm_storeMember field holder item
    · exact Lower.calm_storeIn field item
  obtain ⟨code, t, hstore, hkept, _⟩ := hcalm { s with stack := rest }
  refine ⟨code, t, ?_, hkept⟩
  simp only [Lower.step, hcode, Code.category, Lower.store]
  rw [Lower.storeField, bind_run (Lower.need_run hfield), bind_run (Lower.popPair_run hpop hstack)]
  exact hstore

theorem isStore_of_storeVariable? {locals : List Variable} {store : Instr} {v : Variable}
    (h : storeVariable? f locals store = some v) : store.code.isStore = true := by
  revert h
  rw [storeVariable?]
  cases store.code <;> first | exact fun _ => rfl | exact fun h => by cases h

/-- The store with its usual stack effect, as it would be made if the instruction in front of it had
nothing behind it. -/
theorem Absorbs.store {code : List Instruction} {t alone : Simulation} {store : Instr}
    {v : Variable} (h : Absorbs f s code t store v alone) :
    ∃ rest u, Lower.step { f with position := f.position + 1 }
      { store with pop := store.code.defaultPop } alone = .ok rest u ∧ u.stack = t.stack := by
  have hstored := h.stored
  rw [← h.locals] at hstored
  obtain ⟨item, holders, hitem, hstack, hends⟩ := h.stack
  cases hends with
  | «variable» hcode _ => exact store_variable hstored h.plain hcode rfl hitem hstack
  | field hcode _ _ => exact store_field hstored hcode rfl hstack
  | member hcode _ _ _ _ => exact store_field hstored hcode rfl hstack

/-- The instruction makes the store behind it as well. No branch leads to the store, and it does not
bind a delegate. -/
structure MakesStore (f : Frame) (i : Instr) (s : Simulation) (code : List Instruction)
    (t : Simulation) (store : Instr) (v : Variable) : Prop extends StoreFollows f s store v where
  isStore : store.code.isStore = true
  run : Lower.step f i s = .ok code t
  /-- the last instruction writes what the store writes, and one after the other, with nothing to
  look ahead to, the two would leave the same stack -/
  ends : ∃ item holders made alone rest u, EndsInStore store v holders code ∧
    Lower.step f.alone i s = .ok made alone ∧ alone.stack = item :: (holders ++ t.stack) ∧
    Lower.step { f with position := f.position + 1 } { store with pop := store.code.defaultPop }
      alone = .ok rest u ∧ u.stack = t.stack

theorem exists_makesStore (hs : s.skipNext = false)
    (h : (simulationAfter (Lower.step f i s)).skipNext = true) :
    ∃ code t store v, MakesStore f i s code t store v := by
  cases hrun : Lower.step f i s with
  | error fault t =>
    rw [hrun] at h
    have hkept := (Lower.step_error hrun).1
    exact absurd ((hkept.trans hs).symm.trans h) Bool.false_ne_true
  | ok code t =>
    rw [hrun] at h
    have hskip : t.skipNext ≠ s.skipNext := by
      rw [hs, show t.skipNext = true from h]
      exact Bool.noConfusion
    obtain ⟨made, alone, store, v, halone, habsorbs⟩ := Lower.step_absorbs hrun hskip
    obtain ⟨rest, u, hstore, hsame⟩ := habsorbs.store
    obtain ⟨item, holders, _, hstack, hends⟩ := habsorbs.stack
    exact ⟨code, t, store, v, habsorbs.toStoreFollows,
      isStore_of_storeVariable? habsorbs.stored, hrun, item, holders, made, alone,
      rest, u, hends, halone, hstack, hstore, hsame⟩

def setMember : MethodDecl :=
  { name := "SetX"
    isStatic := true
    locals := [{ name := some "p", type := .nestedStruct "Scene" "Point" }]
    body := [
      { offset := 0, code := .ldloc, operand := .index 0 },
      { offset := 1, code := .ldcI4, operand := .int 1 },
      { offset := 2, code := .ldcI4, operand := .int 2 },
      { offset := 3, code := .add },
      { offset := 4, code := .stfld, operand := .field { name := "X", type := .int32 } },
      { offset := 9, code := .ret }] }

def beforeSum : Simulation :=
  { Simulation.start setMember [] with
    stack := [.ofValue (.int 2), .ofValue (.int 1),
      .ofVariable { name := "p", type := "Scene#Point" }] }

theorem exists_makesStore_member :
    beforeSum.skipNext = false ∧
      (simulationAfter (Lower.step { lenientSetting.frame setMember with position := 3 }
        { offset := 3, code := .add } beforeSum)).skipNext = true ∧
      ∃ code t store v, MakesStore { lenientSetting.frame setMember with position := 3 }
        { offset := 3, code := .add } beforeSum code t store v := by
  have hskip : (simulationAfter (Lower.step { lenientSetting.frame setMember with position := 3 }
      { offset := 3, code := .add } beforeSum)).skipNext = true := by
    decide +kernel
  exact ⟨rfl, hskip, exists_makesStore rfl hskip⟩

end PapyrusBackend.Lowering
