import Mathlib.Algebra.Ring.Nat
import PapyrusBackend.Proofs.Container.Layout
import PapyrusBackend.Proofs.Container.Words
import PapyrusBackend.Proofs.Sequence

namespace PapyrusBackend

def countedExtent (extent : α → Nat) (xs : List α) : Nat := 2 + (xs.map extent).sum

def Value.extent : Value → Nat
  | none => 1
  | reference _ | string _ => 3
  | int _ | float _ => 5
  | bool _ => 2

def Instruction.extent (i : Instruction) : Nat :=
  1 + ((i.arguments.map Value.extent).sum +
    (if i.opcode.variadic then 5 + (i.variadic.map Value.extent).sum else 0))

def Method.extent (m : Method) : Nat :=
  9 + (countedExtent (fun _ => 4) m.parameters + (countedExtent (fun _ => 4) m.body.variables +
    countedExtent Instruction.extent m.body.instructions))

def Field.extent (generation : Generation) (f : Field) : Nat :=
  8 + (f.value.extent + if generation.isLater then 1 else 0)

def Struct.extent (generation : Generation) (s : Struct) : Nat :=
  2 + countedExtent (fun f => f.extent generation + 2) s.fields

def Accessors.extent : Accessors → Nat
  | auto _ => 2
  | explicit getter setter => getter.elim 0 Method.extent + setter.elim 0 Method.extent

def Property.extent (p : Property) : Nat := 11 + p.accessors.extent

def State.extent (s : State) : Nat := 2 + countedExtent (fun m => 2 + m.extent) s.methods

def ObjectType.contentExtent (generation : Generation) (t : ObjectType) : Nat :=
  4 + ((if generation.isLater then 1 else 0) + (6 +
    ((if generation.isLater then countedExtent (Struct.extent generation) t.structs else 0) +
      (countedExtent (Field.extent generation) t.fields +
        (countedExtent Property.extent t.properties + countedExtent State.extent t.states)))))

/-- The size of a type's data as it is stored: the size counts itself, but not the name. -/
def ObjectType.dataExtent (generation : Generation) (t : ObjectType) : Nat :=
  4 + t.contentExtent generation

namespace Container

def Appends (w : Write Unit) (n : Nat) : Prop :=
  ∀ (order : ByteOrder) (done : Array UInt8) (table : StringTable) (o : Output),
    w ⟨order, done, table⟩ = .ok () o →
    ∃ (added : List UInt8) (table' : StringTable), added.length = n ∧
      ∀ done', w ⟨order, done', table⟩ = .ok () ⟨order, done'.appendList added, table'⟩

theorem Appends.congr {w : Write Unit} {m n : Nat} (h : Appends w m) (heq : m = n) :
    Appends w n := heq ▸ h

theorem Appends.pure : Appends (pure ()) 0 := by
  intro order done table o _
  exact ⟨[], table, rfl, fun _ => rfl⟩

theorem appendList_append (done : Array UInt8) (first second : List UInt8) :
    (done.appendList first).appendList second = done.appendList (first ++ second) := by
  apply Array.toList_inj.mp
  simp only [Array.appendList_eq_append, Array.toList_appendList, List.append_assoc]

theorem Appends.bind {v w : Write Unit} {m n : Nat} (hv : Appends v m) (hw : Appends w n) :
    Appends (v >>= fun _ => w) (m + n) := by
  intro order done table o hrun
  obtain ⟨_, o', hfirst, hsecond⟩ := bind_ok hrun
  obtain ⟨first, table', hm, hv'⟩ := hv order done table o' hfirst
  rw [hv' done] at hfirst
  cases hfirst
  obtain ⟨second, table'', hn, hw'⟩ := hw order _ table' o hsecond
  refine ⟨first ++ second, table'', by rw [List.length_append, hm, hn], fun done' => ?_⟩
  rw [bind_run (hv' done'), hw', appendList_append]

/-- A part that only some containers have. -/
theorem Appends.ite {w : Write Unit} {n : Nat} (c : Bool) (h : Appends w n) :
    Appends (if c then w else Pure.pure ()) (if c then n else 0) := by
  cases c with
  | false => exact Appends.pure
  | true => exact h

theorem appends_word (width n : Nat) : Appends (Write.word width n) width := by
  intro order done table o _
  exact ⟨toBytes order width n, table, length_toBytes order width n, fun _ => rfl⟩

theorem appends_count (what : String) (n : Nat) : Appends (Write.count what n) 2 := by
  rw [Write.count]
  split
  · exact appends_word 2 n
  · intro order done table o hrun
    cases hrun

theorem appends_text (s : String) : Appends (Write.text s) 2 := by
  intro order done table o hrun
  simp only [Write.text] at hrun ⊢
  split at hrun
  · next place table' _ =>
    exact ⟨toBytes order 2 place.toNat, table', length_toBytes order 2 _, fun _ => rfl⟩
  · cases hrun

theorem Appends.each {item : α → Write Unit} {extent : α → Nat}
    (h : ∀ x, Appends (item x) (extent x)) (xs : List α) :
    Appends (Write.each item xs) (xs.map extent).sum := by
  induction xs with
  | nil => exact Appends.pure
  | cons x xs ih => exact ((h x).bind ih).congr List.sum_cons.symm

theorem Appends.counted {item : α → Write Unit} {extent : α → Nat} (what : String)
    (h : ∀ x, Appends (item x) (extent x)) (xs : List α) :
    Appends (Write.counted what item xs) (countedExtent extent xs) :=
  (appends_count what xs.length).bind (Appends.each h xs)

theorem appends_value (v : Value) : Appends (Write.value v) v.extent := by
  have hkind := appends_word 1 v.kind.toByte.toNat
  cases v with
  | none => exact hkind.bind Appends.pure
  | reference s => exact hkind.bind (appends_text s)
  | string s => exact hkind.bind (appends_text s)
  | int i => exact hkind.bind (appends_word 4 _)
  | float x => exact hkind.bind (appends_word 4 _)
  | bool b => exact hkind.bind (appends_word 1 _)

theorem appends_instruction (i : Instruction) : Appends (Write.instruction i) i.extent := by
  by_cases harity : i.hasValidArity = true
  · rw [Write.instruction_eq i harity]
    exact (appends_word 1 i.opcode.toByte.toNat).bind ((Appends.each appends_value i.arguments).bind
      (Appends.ite i.opcode.variadic ((appends_value (.int _)).bind
        (Appends.each appends_value i.variadic))))
  · intro order done table o hrun
    rw [Write.instruction_fails i harity] at hrun
    cases hrun

theorem appends_typedName (v : TypedName) : Appends (Write.typedName v) 4 :=
  (appends_text v.name).bind (appends_text v.type)

theorem appends_method (m : Method) : Appends (Write.method m) m.extent := by
  have h := (appends_text m.returns).bind ((appends_text m.documentation).bind
    ((appends_word 4 m.userFlags.toNat).bind ((appends_word 1 m.flags.toNat).bind
      ((Appends.counted "parameters" appends_typedName m.parameters).bind
        ((Appends.counted "variables" appends_typedName m.body.variables).bind
          (Appends.counted "instructions" appends_instruction m.body.instructions))))))
  refine h.congr ?_
  rw [Method.extent]
  omega

theorem appends_namedMethod (m : Method) : Appends (Write.namedMethod m) (2 + m.extent) :=
  (appends_text m.name).bind (appends_method m)

theorem appends_field (generation : Generation) (f : Field) :
    Appends (Write.field generation f) (f.extent generation) := by
  have h := (appends_text f.name).bind ((appends_text f.type).bind
    ((appends_word 4 f.userFlags.toNat).bind ((appends_value f.value).bind
      (Appends.ite generation.isLater (appends_word 1 f.flags.toNat)))))
  refine h.congr ?_
  rw [Field.extent]
  omega

theorem appends_struct (generation : Generation) (s : Struct) :
    Appends (Write.struct generation s) (s.extent generation) :=
  (appends_text s.name).bind (Appends.counted "struct members"
    (fun f => (appends_field generation f).bind (appends_text f.documentation)) s.fields)

theorem appends_optionalMethod (m : Option Method) :
    Appends (Write.optionalMethod m) (m.elim 0 Method.extent) := by
  cases m with
  | none => exact Appends.pure
  | some m => exact appends_method m

theorem appends_accessors (accessors : Accessors) :
    Appends (Write.accessors accessors) accessors.extent := by
  cases accessors with
  | auto backing => exact appends_text backing
  | explicit getter setter =>
    exact (appends_optionalMethod getter).bind (appends_optionalMethod setter)

theorem appends_property (p : Property) : Appends (Write.property p) p.extent := by
  have h := (appends_text p.name).bind ((appends_text p.type).bind
    ((appends_text p.documentation).bind ((appends_word 4 p.userFlags.toNat).bind
      ((appends_word 1 p.storedFlags.toNat).bind (appends_accessors p.accessors)))))
  rw [Write.property_eq]
  refine h.congr ?_
  rw [Property.extent]
  omega

theorem appends_state (s : State) : Appends (Write.state s) s.extent :=
  (appends_text s.name).bind (Appends.counted "methods" appends_namedMethod s.methods)

theorem appends_typeContent (generation : Generation) (t : ObjectType) :
    Appends (Write.typeContent generation t) (t.contentExtent generation) := by
  have h := (appends_text t.base).bind ((appends_text t.documentation).bind
    ((Appends.ite generation.isLater (appends_word 1 t.flags.toNat)).bind
      ((appends_word 4 t.userFlags.toNat).bind ((appends_text t.autoState).bind
        ((Appends.ite generation.isLater
          (Appends.counted "structs" (appends_struct generation) t.structs)).bind
          ((Appends.counted "fields" (appends_field generation) t.fields).bind
            ((Appends.counted "properties" appends_property t.properties).bind
              (Appends.counted "states" appends_state t.states))))))))
  rw [Write.typeContent_eq]
  refine h.congr ?_
  rw [ObjectType.contentExtent]
  omega

end Container

end PapyrusBackend
