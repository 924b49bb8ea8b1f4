import PapyrusBackend.Proofs.Lowering.Course
import PapyrusBackend.Proofs.Semantics.Script

namespace PapyrusBackend.Lowering

open Source Semantics

variable {V : Type} {I : Interpretation V} {m : MethodDecl}

theorem temporaryName_not_mem (hm : IntegerMethod m) (k : Nat) :
    Lower.temporaryName k ∉ slotNames m := by
  intro hmem
  apply hm.notTemporary _ hmem
  rw [Lower.temporaryName, String.toList_append]
  exact List.prefix_append _ _

theorem not_knownName (hm : IntegerMethod m) (k : Nat) :
    ¬KnownName m k (Lower.temporaryName k) := by
  rintro (hmem | ⟨j, hj, hname⟩)
  · exact temporaryName_not_mem hm k hmem
  · exact Nat.ne_of_lt hj (temporaryName_inj hname).symm

/-- Slots whose variables have one name are one slot. -/
theorem IntegerMethod.slot_inj (hm : IntegerMethod m) {a b : Managed.Slot} {v w : Variable}
    (ha : slotVariable? m a = some v) (hb : slotVariable? m b = some w) (hname : v.name = w.name) :
    a = b := by
  have hdistinct := hm.distinct
  rw [slotNames, List.map_append, List.nodup_append] at hdistinct
  obtain ⟨hparameters, hlocals, hapart⟩ := hdistinct
  have hat {vars : List Variable} {k : Nat} {x : Variable} (h : vars[k]? = some x) :
      (vars.map Variable.name)[k]? = some x.name := by rw [List.getElem?_map, h]; rfl
  have hsame {vars : List Variable} (hvars : (vars.map Variable.name).Nodup) {j k : Nat}
      (hj : vars[j]? = some v) (hk : vars[k]? = some w) : j = k := by
    refine (List.getElem?_inj (List.getElem?_eq_some_iff.1 (hat hj)).1 hvars).1 ?_
    rw [hat hj, hat hk, hname]
  cases a with
  | argument j =>
    cases b with
    | argument k => rw [hsame hparameters ha hb]
    | «local» k =>
      exact absurd hname (hapart _ (List.mem_of_getElem? (hat ha)) _ (List.mem_of_getElem? (hat hb)))
  | «local» j =>
    cases b with
    | argument k =>
      exact absurd hname.symm
        (hapart _ (List.mem_of_getElem? (hat hb)) _ (List.mem_of_getElem? (hat ha)))
    | «local» k => rw [hsame hlocals ha hb]

/-- The items stand for the stack, and the variables of the method hold what is in their slots. -/
structure Agrees (I : Interpretation V) (m : MethodDecl) (items : Stack) (stack : List V)
    (slots : Managed.Slot → V) (env : String → V) : Prop where
  stack : items.map (fun item => Script.eval I env item.operand) = stack.map some
  slots : ∀ slot v, slotVariable? m slot = some v → env v.name = slots slot

variable {items : Stack} {stack : List V} {slots : Managed.Slot → V} {env : String → V}

theorem IntegerItem.eval_update {item : Item} (hitem : IntegerItem item) {name : String}
    (hname : name ∉ item.reads) (value : V) :
    Script.eval I (Function.update env name value) item.operand =
      Script.eval I env item.operand := by
  obtain ⟨n, hn⟩ | ⟨v, hv, _⟩ := hitem.content
  · simp only [Item.operand, hn, Script.eval]
  · have hne : v.name ≠ name := by
      rintro rfl
      apply hname
      simp only [Item.reads, hv, List.mem_singleton]
    simp only [Item.operand, hv, Variable.value, Script.eval, Function.update_of_ne hne]

theorem Agrees.push (h : Agrees I m items stack slots env) {item : Item} {v : V}
    (hv : Script.eval I env item.operand = some v) :
    Agrees I m (item :: items) (v :: stack) slots env where
  stack := by rw [List.map_cons, List.map_cons, hv, h.stack]
  slots := h.slots

theorem Agrees.top {item : Item} (h : Agrees I m (item :: items) stack slots env) :
    ∃ v rest, stack = v :: rest ∧ Script.eval I env item.operand = some v ∧
      Agrees I m items rest slots env := by
  have hstack := h.stack.symm
  rw [List.map_cons, List.map_eq_cons_iff] at hstack
  obtain ⟨v, rest, rfl, hv, hrest⟩ := hstack
  exact ⟨v, rest, rfl, hv.symm, hrest.symm, h.slots⟩

theorem Agrees.empty (h : Agrees I m [] stack slots env) : stack = [] :=
  List.map_eq_nil_iff.1 h.stack.symm

/-- Items that do not refer to a variable stand for the same values after a write to it. -/
theorem Agrees.stack_update (h : Agrees I m items stack slots env)
    (hitems : ∀ item ∈ items, IntegerItem item) {name : String}
    (hname : ∀ item ∈ items, name ∉ item.reads) (value : V) :
    items.map (fun item => Script.eval I (Function.update env name value) item.operand) =
      stack.map some := by
  rw [← h.stack]
  exact List.map_congr_left fun item hitem =>
    (hitems item hitem).eval_update (hname item hitem) value

theorem Agrees.writeOther (h : Agrees I m items stack slots env)
    (hitems : ∀ item ∈ items, IntegerItem item) {name : String} (hother : name ∉ slotNames m)
    (hname : ∀ item ∈ items, name ∉ item.reads) (value : V) :
    Agrees I m items stack slots (Function.update env name value) where
  stack := h.stack_update hitems hname value
  slots slot v hv := by
    have hne : v.name ≠ name := fun heq => hother (heq ▸ name_mem_slotNames hv)
    rw [Function.update_of_ne hne, h.slots slot v hv]

theorem Agrees.writeSlot (h : Agrees I m items stack slots env) (hm : IntegerMethod m)
    (hitems : ∀ item ∈ items, IntegerItem item) {slot : Managed.Slot} {v : Variable}
    (hv : slotVariable? m slot = some v) (hname : ∀ item ∈ items, v.name ∉ item.reads)
    (value : V) :
    Agrees I m items stack (Function.update slots slot value)
      (Function.update env v.name value) where
  stack := h.stack_update hitems hname value
  slots slot' w hw := by
    by_cases hslot : slot' = slot
    · subst hslot
      cases hv.symm.trans hw
      rw [Function.update_self, Function.update_self]
    · have hne : w.name ≠ v.name := fun heq => hslot (hm.slot_inj hw hv heq)
      rw [Function.update_of_ne hne, Function.update_of_ne hslot, h.slots slot' w hw]

end PapyrusBackend.Lowering
