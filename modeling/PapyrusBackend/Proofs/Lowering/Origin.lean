import PapyrusBackend.Lowering.Program
import PapyrusBackend.Proofs.Sequence

namespace PapyrusBackend

structure Method.IsStub (m : Method) : Prop where
  owner : m.body.owner = m.name
  code : m.body.instructions = []

structure Property.MadeOf (P : Method → Prop) (p : Property) : Prop where
  getter : ∀ m ∈ p.getter?, ∃ made, P made ∧ m = made.rename (getterName p.name)
  setter : ∀ m ∈ p.setter?, ∃ made, P made ∧ m = made.rename (setterName p.name)

structure ObjectType.MadeOf (P : Method → Prop) (t : ObjectType) : Prop where
  methods : ∀ m ∈ t.methods, P m
  properties : ∀ p ∈ t.properties, p.MadeOf P

theorem ObjectType.MadeOf.exists_made {P : Method → Prop} {t : ObjectType} (h : t.MadeOf P)
    {m : Method} (hm : m ∈ t.methods ++ t.properties.flatMap Property.methods) :
    ∃ made, P made ∧ (m = made ∨ ∃ name, m = made.rename name) := by
  obtain hm | hm := List.mem_append.1 hm
  · exact ⟨m, h.methods m hm, .inl rfl⟩
  · obtain ⟨p, hp, hm⟩ := List.mem_flatMap.1 hm
    obtain hm | hm := List.mem_append.1 hm
    · obtain ⟨made, hmade, rfl⟩ := (h.properties p hp).getter m (Option.mem_toList.1 hm)
      exact ⟨made, hmade, .inr ⟨_, rfl⟩⟩
    · obtain ⟨made, hmade, rfl⟩ := (h.properties p hp).setter m (Option.mem_toList.1 hm)
      exact ⟨made, hmade, .inr ⟨_, rfl⟩⟩

namespace Lowering

open Source

theorem name_declareProperty (p : PropertyDecl) : (declareProperty p).name = p.name := by
  rw [declareProperty]
  cases p.backing <;> rfl

section

variable {P : Method → Prop}

theorem declareProperty_madeOf (hstub : ∀ m : Method, m.IsStub → P m) (p : PropertyDecl) :
    (declareProperty p).MadeOf P := by
  have hdeclared {declared : Option String} {stub : String → Method} {name : String}
      (h : ∀ accessor, (stub accessor).IsStub) :
      ∀ m ∈ (declared.map stub).map fun m => m.rename name, ∃ made, P made ∧
        m = made.rename name := by
    intro m hm
    obtain ⟨_, hmade, rfl⟩ := Option.map_eq_some_iff.1 hm
    obtain ⟨accessor, _, rfl⟩ := Option.map_eq_some_iff.1 hmade
    exact ⟨_, hstub _ (h accessor), rfl⟩
  rw [declareProperty]
  cases p.backing with
  | some backing => exact ⟨nofun, nofun⟩
  | none =>
    constructor
    · exact hdeclared fun _ => ⟨rfl, rfl⟩
    · exact hdeclared fun _ => ⟨rfl, rfl⟩

theorem declareType_madeOf (hstub : ∀ m : Method, m.IsStub → P m) (options : Options)
    (t : TypeDecl) : (declareType options t).MadeOf P where
  methods m hm := by cases hm
  properties := by
    simp only [declareType, List.forall_mem_map]
    exact fun p _ => declareProperty_madeOf hstub p

theorem fillSlot_madeOf {p : Property} {m : Method} (hp : p.MadeOf P) (hm : P m)
    (accessor : Naming.Accessor) : (fillSlot p accessor m).MadeOf P := by
  obtain ⟨hgetter, hsetter⟩ := hp
  cases haccessors : p.accessors with
  | auto backing =>
    simp only [fillSlot, haccessors]
    exact ⟨hgetter, hsetter⟩
  | explicit getter setter =>
    simp only [Property.getter?, Property.setter?, haccessors] at hgetter hsetter
    cases accessor with
    | get =>
      simp only [fillSlot, haccessors]
      refine ⟨?_, hsetter⟩
      rintro _ ⟨⟩
      exact ⟨m, hm, rfl⟩
    | set =>
      simp only [fillSlot, haccessors]
      refine ⟨hgetter, ?_⟩
      rintro _ ⟨⟩
      exact ⟨m, hm, rfl⟩

theorem forall_mem_updateProperty {Q : Property → Prop} {f : Property → Property}
    (hf : ∀ p, Q p → Q (f p)) (method : String) {properties : List Property}
    (h : ∀ p ∈ properties, Q p) : ∀ p ∈ updateProperty f method properties, Q p := by
  induction properties with
  | nil => exact h
  | cons p rest ih =>
    obtain ⟨hp, hrest⟩ := List.forall_mem_cons.1 h
    rw [updateProperty]
    split
    · exact List.forall_mem_cons.2 ⟨hf p hp, hrest⟩
    · exact List.forall_mem_cons.2 ⟨hp, ih hrest⟩

theorem forall_mem_addMethod {t : ObjectType} {m : Method}
    (h : ∀ other ∈ t.methods, P other) (hm : P m) :
    ∀ other ∈ (t.addMethod m).methods, P other := by
  simp only [ObjectType.methods, ObjectType.addMethod, ObjectType.updateDefaultState] at h ⊢
  generalize t.states = states at h
  induction states with
  | nil => simpa [ObjectType.updateState] using hm
  | cons s rest ih =>
    rw [List.flatMap_cons, List.forall_mem_append] at h
    rw [ObjectType.updateState]
    split
    · simp only [List.flatMap_cons, List.forall_mem_append, List.forall_mem_singleton]
      exact ⟨⟨h.1, hm⟩, h.2⟩
    · rw [List.flatMap_cons, List.forall_mem_append]
      exact ⟨h.1, ih h.2⟩

theorem placeMethod_madeOf {t : ObjectType} {m : LoweredMethod} (ht : t.MadeOf P)
    (hm : P m.method) : (placeMethod t m).1.MadeOf P := by
  rw [placeMethod]
  split
  · split
    · exact ht
    · exact ⟨ht.methods,
        forall_mem_updateProperty (fun p hp => fillSlot_madeOf hp hm _) _ ht.properties⟩
  · exact ⟨forall_mem_addMethod ht.methods hm, ht.properties⟩

theorem placeMethods_madeOf {t : ObjectType} {lowered : List LoweredMethod} (ht : t.MadeOf P)
    (h : ∀ m ∈ lowered, P m.method) : (placeMethods t lowered).1.MadeOf P := by
  induction lowered generalizing t with
  | nil => exact ht
  | cons m rest ih =>
    obtain ⟨hm, hrest⟩ := List.forall_mem_cons.1 h
    have hplaced := placeMethod_madeOf ht hm
    rw [placeMethods]
    exact ih hplaced hrest

end

/-- Nothing else of the type changes. -/
theorem placeMethods_eq (t : ObjectType) (lowered : List LoweredMethod) :
    ∃ properties states, (placeMethods t lowered).1 = { t with properties, states } := by
  induction lowered generalizing t with
  | nil => exact ⟨t.properties, t.states, rfl⟩
  | cons m rest ih =>
    have hfirst : ∃ properties states, (placeMethod t m).1 = { t with properties, states } := by
      rw [placeMethod]
      split
      · split
        · exact ⟨_, _, rfl⟩
        · exact ⟨_, _, rfl⟩
      · exact ⟨_, _, rfl⟩
    obtain ⟨_, _, hfirst⟩ := hfirst
    obtain ⟨properties, states, hrest⟩ := ih (placeMethod t m).1
    refine ⟨properties, states, ?_⟩
    rw [placeMethods]
    exact hrest.trans (by rw [hfirst])

/-- Methods that fail are left out. -/
theorem lowerMethods_eq_filterMap {setting : Setting} {methods : List MethodDecl}
    {lowered : List LoweredMethod} {warnings : List String}
    (h : lowerMethods setting methods = .ok (lowered, warnings)) :
    lowered = methods.filterMap fun m => (lowerMethod setting m).toOption := by
  induction methods generalizing lowered warnings with
  | nil =>
    cases h
    rfl
  | cons d rest ih =>
    rw [lowerMethods] at h
    rw [List.filterMap_cons]
    split at h
    · next first hfirst =>
      obtain ⟨others, hothers, hpure⟩ := except_bind_ok h
      cases hpure
      rw [hfirst, ← ih hothers]
      rfl
    · next fault hfault =>
      rw [hfault]
      split at h
      · cases h
      · obtain ⟨others, hothers, hpure⟩ := except_bind_ok h
        cases hpure
        exact ih hothers

theorem lowerMethods_origin {setting : Setting} {methods : List MethodDecl}
    {lowered : List LoweredMethod} {warnings : List String}
    (h : lowerMethods setting methods = .ok (lowered, warnings)) :
    ∀ m ∈ lowered, ∃ d ∈ methods, lowerMethod setting d = .ok m := by
  intro m hm
  rw [lowerMethods_eq_filterMap h] at hm
  obtain ⟨d, hd, hlower⟩ := List.mem_filterMap.1 hm
  exact ⟨d, hd, ok_of_toOption hlower⟩

/-- A stub, or what a method of the type is lowered to. -/
def StemsFrom (options : Options) (program : Source.Module) (t : TypeDecl) (m : Method) : Prop :=
  m.IsStub ∨ ∃ d ∈ t.methods, ∃ result, lowerMethod (options.setting program t) d = .ok result ∧
    m = result.method

theorem lowerType_madeOf {options : Options} {program : Source.Module} {t : TypeDecl}
    {result : LoweredType} (h : lowerType options program t = .ok result) :
    result.definition.MadeOf (StemsFrom options program t) := by
  obtain ⟨⟨lowered, warnings⟩, hmethods, hpure⟩ := except_bind_ok h
  cases hpure
  refine placeMethods_madeOf (declareType_madeOf (fun _ => .inl) options t) fun m hm => ?_
  obtain ⟨d, hd, hlower⟩ := lowerMethods_origin hmethods m hm
  exact .inr ⟨d, (List.mem_filter.1 hd).1, m, hlower, rfl⟩

theorem lowerTypes_origin {options : Options} {program : Source.Module} {types : List TypeDecl}
    {result : List LoweredType} (h : lowerTypes options program types = .ok result) :
    ∀ lowered ∈ result, ∃ t ∈ types, lowerType options program t = .ok lowered := by
  induction types generalizing result with
  | nil =>
    cases h
    exact fun lowered hlowered => absurd hlowered List.not_mem_nil
  | cons t rest ih =>
    obtain ⟨first, hfirst, hrest⟩ := except_bind_ok h
    obtain ⟨others, hothers, hpure⟩ := except_bind_ok hrest
    cases hpure
    refine List.forall_mem_cons.2 ⟨⟨t, List.mem_cons_self, hfirst⟩, fun lowered hlowered => ?_⟩
    obtain ⟨t', ht', hlower⟩ := ih hothers lowered hlowered
    exact ⟨t', List.mem_cons_of_mem t ht', hlower⟩

theorem lowerProgram_origin {options : Options} {time : UInt64} {program : Source.Module}
    {result : LoweredProgram} (h : lowerProgram options time program = .ok result) :
    ∀ m ∈ result.assembly.methods, ∃ t ∈ program.types, ∃ made,
      StemsFrom options program t made ∧ (m = made ∨ ∃ name, m = made.rename name) := by
  obtain ⟨types, htypes, hpure⟩ := except_bind_ok h
  cases hpure
  intro m hm
  obtain ⟨definition, hdefinition, hm⟩ := List.mem_flatMap.1 hm
  obtain ⟨lowered, hlowered, rfl⟩ := List.mem_map.1 hdefinition
  obtain ⟨t, ht, hlower⟩ := lowerTypes_origin htypes lowered hlowered
  exact ⟨t, ht, (lowerType_madeOf hlower).exists_made hm⟩

end Lowering

end PapyrusBackend
