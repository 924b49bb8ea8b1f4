import PapyrusBackend.Proofs.Lowering.Landing
import PapyrusBackend.Proofs.Lowering.Origin
import PapyrusBackend.Proofs.Lowering.Placement
import Mathlib.Data.List.Pairwise

namespace PapyrusBackend

namespace Property

def accessorName (p : Property) : Naming.Accessor → String
  | .get => getterName p.name
  | .set => setterName p.name

def slot? (p : Property) : Naming.Accessor → Option Method
  | .get => p.getter?
  | .set => p.setter?

theorem hasAccessor_iff {p : Property} {name : String} :
    p.hasAccessor name = true ↔ ∃ a, Text.sameName name (p.accessorName a) = true := by
  rw [hasAccessor, Bool.or_eq_true]
  constructor
  · rintro (h | h)
    · exact ⟨.get, h⟩
    · exact ⟨.set, h⟩
  · rintro ⟨a, h⟩
    cases a with
    | get => exact .inl h
    | set => exact .inr h

theorem accessor?_of_sameName {p : Property} {name : String} {a : Naming.Accessor}
    (h : Text.sameName name (p.accessorName a) = true) : Naming.accessor? name = some a := by
  have hmark : (name.toList.take 4).map Char.toLower =
      ((p.accessorName a).toList.take 4).map Char.toLower := by
    rw [List.map_take, List.map_take, Text.sameName_iff.1 h]
  rw [Naming.accessor?, hmark]
  cases a <;> simp [accessorName, getterName, setterName]

theorem roleOf_accessor (p : Property) {name : String} {a : Naming.Accessor}
    (h : Text.sameName name (p.accessorName a) = true) :
    (if Text.sameName name (getterName p.name) then Role.getter else .setter) =
      Lowering.roleOf a := by
  cases a with
  | get => exact if_pos h
  | set =>
    refine if_neg fun hget => ?_
    cases (accessor?_of_sameName h).symm.trans (accessor?_of_sameName (a := .get) hget)

/-- The property with methods in its slots; a slot that gets none keeps its own. -/
def filled (p : Property) (newcomer : Naming.Accessor → Option Method) : Property :=
  match p.accessors with
  | .auto _ => p
  | .explicit getter setter =>
    let settled (a : Naming.Accessor) (former : Option Method) :=
      ((newcomer a).map fun m => m.rename (p.accessorName a)).or former
    { p with accessors := .explicit (settled .get getter) (settled .set setter) }

variable (p : Property) (newcomer : Naming.Accessor → Option Method)

@[simp] theorem name_filled : (p.filled newcomer).name = p.name := by
  rw [filled]
  split <;> rfl

@[simp] theorem isAuto_filled : (p.filled newcomer).isAuto = p.isAuto := by
  rw [filled]
  split
  · rfl
  · next h => rw [isAuto, isAuto, h]

theorem filled_auto (h : p.isAuto = true) : p.filled newcomer = p := by
  rw [filled]
  split
  · rfl
  · next haccessors => simp [isAuto, haccessors] at h

theorem slot?_filled (h : p.isAuto = false) (a : Naming.Accessor) :
    (p.filled newcomer).slot? a =
      ((newcomer a).map fun m => m.rename (p.accessorName a)).or (p.slot? a) := by
  rw [filled]
  cases haccessors : p.accessors with
  | auto backing => simp [isAuto, haccessors] at h
  | explicit getter setter => cases a <;> simp [slot?, getter?, setter?, haccessors]

theorem filled_none : p.filled (fun _ => none) = p := by
  rw [filled]
  split
  · rfl
  · next h => simp [← h]

end Property

namespace Lowering

open Source

theorem fillSlot_filled (p : Property) (newcomer : Naming.Accessor → Option Method)
    (a : Naming.Accessor) (m : Method) :
    fillSlot (p.filled newcomer) a m = p.filled (Function.update newcomer a (some m)) := by
  rw [Property.filled, Property.filled]
  cases haccessors : p.accessors with
  | auto backing => simp [fillSlot, haccessors]
  | explicit getter setter =>
    cases a <;> simp [fillSlot, Property.accessorName, Function.update]

def owner? (properties : List Property) (name : String) : Option Nat :=
  properties.findIdx? fun p => p.hasAccessor name

/-- The method for a slot of the `k`-th property; a later one takes the place of an earlier. -/
def newcomer (properties : List Property) (lowered : List LoweredMethod) (k : Nat)
    (a : Naming.Accessor) : Option Method :=
  (lowered.reverse.find? fun m =>
    owner? properties m.method.name == some k && Naming.accessor? m.method.name == some a).map
    LoweredMethod.method

def populated (t : ObjectType) (lowered : List LoweredMethod) : ObjectType :=
  { t with
    states := [
      { name := t.autoState
        methods := (lowered.filter fun m =>
          t.properties.all fun p => !p.hasAccessor m.method.name).map LoweredMethod.method }]
    properties := t.properties.mapIdx fun k p => p.filled (newcomer t.properties lowered k) }

def described (t : ObjectType) (m : LoweredMethod) : Option MethodLines :=
  match t.properties.find? fun p => p.hasAccessor m.method.name with
  | none =>
    some { type := t.name, state := t.autoState, name := m.method.name, role := .method
           lines := m.lines }
  | some p =>
    if p.isAuto then none
    else
      let role :=
        if Text.sameName m.method.name (Property.getterName p.name) then .getter else .setter
      some { type := t.name, state := "", name := p.name, role, lines := m.lines }

theorem owner?_eq_none_iff {properties : List Property} {name : String} :
    owner? properties name = none ↔ (properties.all fun p => !p.hasAccessor name) = true := by
  simp [owner?, List.findIdx?_eq_none_iff]

theorem exists_owner {properties : List Property} {name : String} {k : Nat}
    (h : owner? properties name = some k) :
    ∃ p a, properties[k]? = some p ∧ Text.sameName name (p.accessorName a) = true := by
  obtain ⟨hk, hp, _⟩ := List.findIdx?_eq_some_iff_getElem.1 h
  obtain ⟨a, ha⟩ := Property.hasAccessor_iff.1 hp
  exact ⟨properties[k], a, List.getElem?_eq_getElem hk, ha⟩

/-- Only the names of the properties count. -/
theorem owner?_congr {properties others : List Property}
    (h : others.map Property.name = properties.map Property.name) (name : String) :
    owner? others name = owner? properties name := by
  have hnames (ps : List Property) : owner? ps name = (ps.map Property.name).findIdx? fun own =>
      Text.sameName name (Property.getterName own) ||
        Text.sameName name (Property.setterName own) := by
    rw [List.findIdx?_map]
    rfl
  rw [hnames, hnames, h]

theorem find?_hasAccessor {properties : List Property} {name : String} :
    (properties.find? fun p => p.hasAccessor name) =
      (owner? properties name).bind fun k => properties[k]? :=
  List.find?_eq_bind_findIdx?_getElem?

theorem updateProperty_eq_modify {f : Property → Property} {name : String}
    {properties : List Property} {k : Nat} (h : owner? properties name = some k) :
    updateProperty f name properties = properties.modify k f := by
  induction properties generalizing k with
  | nil => cases h
  | cons p rest ih =>
    rw [owner?, List.findIdx?_cons] at h
    rw [updateProperty]
    split at h
    · next hp =>
      cases h
      rw [if_pos hp, List.modify_zero_cons]
    · next hp =>
      obtain ⟨j, hj, rfl⟩ := Option.map_eq_some_iff.1 h
      rw [if_neg hp, List.modify_succ_cons, ih hj]

theorem newcomer_concat (properties : List Property) (done : List LoweredMethod)
    (m : LoweredMethod) (k : Nat) (a : Naming.Accessor) :
    newcomer properties (done ++ [m]) k a =
      if owner? properties m.method.name = some k ∧ Naming.accessor? m.method.name = some a then
        some m.method
      else newcomer properties done k a := by
  rw [newcomer, List.reverse_concat, List.find?_cons]
  split
  · next h =>
    rw [if_pos (by simpa using h)]
    rfl
  · next h =>
    rw [if_neg (by simpa using h)]
    rfl

section

variable (t : ObjectType) (done : List LoweredMethod)

theorem getElem?_populated (k : Nat) : (populated t done).properties[k]? =
    (t.properties[k]?).map fun p => p.filled (newcomer t.properties done k) :=
  List.getElem?_mapIdx

@[simp] theorem owner?_populated (name : String) :
    owner? (populated t done).properties name = owner? t.properties name := by
  refine owner?_congr (List.ext_getElem? fun k => ?_) name
  simp only [List.getElem?_map, getElem?_populated, Option.map_map]
  congr 1
  funext p
  exact p.name_filled _

theorem populated_nil (h : t.states = [{ name := t.autoState }]) : populated t [] = t := by
  have hproperties : (populated t []).properties = t.properties := by
    refine List.ext_getElem? fun k => ?_
    have hnone : newcomer t.properties [] k = fun _ => none := rfl
    simp only [getElem?_populated, hnone, Property.filled_none, Option.map_id']
  calc populated t [] = { t with
        states := [{ name := t.autoState }], properties := (populated t []).properties } := rfl
    _ = t := by rw [← h, hproperties]

variable {t done} {m : LoweredMethod}

theorem populated_concat_free (h : owner? t.properties m.method.name = none) :
    populated t (done ++ [m]) = (populated t done).addMethod m.method := by
  have hnewcomer (k : Nat) :
      newcomer t.properties (done ++ [m]) k = newcomer t.properties done k := by
    funext a
    simp [newcomer_concat, h]
  have hfree := owner?_eq_none_iff.1 h
  simp [populated, hnewcomer, hfree, ObjectType.addMethod, ObjectType.updateDefaultState,
    ObjectType.updateState]

theorem populated_concat_owned {k : Nat} {a : Naming.Accessor}
    (h : owner? t.properties m.method.name = some k)
    (ha : Naming.accessor? m.method.name = some a) :
    populated t (done ++ [m]) = { populated t done with
      properties := (populated t done).properties.modify k fun p => fillSlot p a m.method } := by
  have howned : (t.properties.all fun p => !p.hasAccessor m.method.name) = false := by
    rw [← Bool.not_eq_true, ← owner?_eq_none_iff, h]
    exact Option.some_ne_none k
  have hproperties : (populated t (done ++ [m])).properties =
      (populated t done).properties.modify k fun p => fillSlot p a m.method := by
    refine List.ext_getElem? fun j => ?_
    simp only [List.getElem?_modify, getElem?_populated, Option.map_eq_map, Option.map_map]
    congr 1
    funext p
    simp only [Function.comp]
    by_cases hj : k = j
    · subst hj
      rw [if_pos rfl, fillSlot_filled]
      congr 1
      funext b
      by_cases hb : b = a
      · subst hb
        simp [newcomer_concat, h, ha]
      · have hne : ¬a = b := fun hab => hb hab.symm
        simp [newcomer_concat, ha, hb, hne]
    · have hnewcomer : newcomer t.properties (done ++ [m]) j = newcomer t.properties done j := by
        funext b
        simp [newcomer_concat, h, hj]
      rw [if_neg hj, hnewcomer]
  calc populated t (done ++ [m]) = { t with
        states := (populated t (done ++ [m])).states
        properties := (populated t (done ++ [m])).properties } := rfl
    _ = _ := by
      rw [hproperties]
      simp [populated, howned]

theorem populated_concat_auto {k : Nat} {a : Naming.Accessor} {p : Property}
    (h : owner? t.properties m.method.name = some k)
    (ha : Naming.accessor? m.method.name = some a) (hp : t.properties[k]? = some p)
    (hauto : p.isAuto = true) : populated t (done ++ [m]) = populated t done := by
  have hsame : ((populated t done).properties.modify k fun p => fillSlot p a m.method) =
      (populated t done).properties := by
    refine List.ext_getElem? fun j => ?_
    rw [List.getElem?_modify, getElem?_populated, Option.map_eq_map, Option.map_map]
    by_cases hj : k = j
    · subst hj
      simp only [if_true, hp, Option.map_some, Function.comp, fillSlot_filled]
      rw [p.filled_auto _ hauto, p.filled_auto _ hauto]
    · simp [hj, Function.comp_def]
  rw [populated_concat_owned h ha, hsame]

/-- A method that is placed after others. -/
theorem placeMethod_populated :
    placeMethod (populated t done) m = (populated t (done ++ [m]), (described t m).toList) := by
  cases howner : owner? t.properties m.method.name with
  | none =>
    have hfree : accessorOf? (populated t done) m.method.name = none := by
      rw [accessorOf?]
      split
      · rfl
      · rw [find?_hasAccessor, owner?_populated, howner]
        rfl
    rw [placeMethod, hfree, described, find?_hasAccessor, howner, populated_concat_free howner]
    rfl
  | some k =>
    obtain ⟨p, a, hp, hname⟩ := exists_owner howner
    have ha := Property.accessor?_of_sameName hname
    have hfound : accessorOf? (populated t done) m.method.name =
        some (p.filled (newcomer t.properties done k), a) := by
      simp [accessorOf?, ha, find?_hasAccessor, howner, getElem?_populated, hp]
    rw [placeMethod, hfound, described, find?_hasAccessor, howner, Option.bind_some, hp]
    simp only [Property.isAuto_filled, Property.name_filled]
    split
    · next hauto => rw [populated_concat_auto howner ha hp hauto, Option.toList_none]
    · rw [populated_concat_owned howner ha, updateProperty_eq_modify (by simpa using howner),
        p.roleOf_accessor hname]
      rfl

theorem placeMethods_populated (rest : List LoweredMethod) :
    placeMethods (populated t done) rest =
      (populated t (done ++ rest), rest.filterMap (described t)) := by
  induction rest generalizing done with
  | nil => rw [List.append_nil, List.filterMap_nil, placeMethods]
  | cons m rest ih =>
    rw [placeMethods, placeMethod_populated]
    simp only [ih, List.append_assoc, List.singleton_append, List.filterMap_cons]
    cases described t m <;> rfl

end

theorem name_lowered {setting : Setting} {m : MethodDecl} {result : LoweredMethod}
    (h : lowerMethod setting m = .ok result) : result.method.name = m.name := by
  rw [lowerMethod] at h
  split at h
  · cases h
    rfl
  · obtain ⟨segments, s, _, hresult⟩ := lowerCode_ok h
    cases hresult
    rfl

theorem length_lines {setting : Setting} {m : MethodDecl} {result : LoweredMethod}
    (h : lowerMethod setting m = .ok result) :
    result.lines.length = result.method.body.instructions.length := by
  rw [lowerMethod] at h
  split at h
  · cases h
    rfl
  · obtain ⟨segments, s, _, hresult⟩ := lowerCode_ok h
    cases hresult
    simp only [length_assemble, List.length_flatMap, Segment.lines, List.length_replicate]

/-- No two names differ in case only. -/
def Distinct (names : List String) : Prop := names.Pairwise fun a b => Text.sameName a b = false

instance (names : List String) : Decidable (Distinct names) :=
  inferInstanceAs (Decidable (names.Pairwise _))

theorem Distinct.lowered {methods : List MethodDecl} (h : Distinct (methods.map MethodDecl.name))
    (setting : Setting) :
    Distinct ((methods.filterMap fun m => (lowerMethod setting m).toOption).map
      fun m => m.method.name) := by
  rw [Distinct, List.pairwise_map] at h ⊢
  refine List.Pairwise.filterMap _ (fun a b hab made hmade other hother => ?_) h
  rwa [name_lowered (ok_of_toOption hmade), name_lowered (ok_of_toOption hother)]

/-- A slot has one method of its own. -/
theorem newcomer_eq_some {properties : List Property} {lowered : List LoweredMethod}
    (hdistinct : Distinct (lowered.map fun m => m.method.name)) {m : LoweredMethod}
    (hm : m ∈ lowered) {k : Nat} {p : Property} {a : Naming.Accessor}
    (howner : owner? properties m.method.name = some k) (hp : properties[k]? = some p)
    (ha : Naming.accessor? m.method.name = some a) :
    newcomer properties lowered k a = some m.method := by
  have hname {other : LoweredMethod} (howner : owner? properties other.method.name = some k)
      (ha : Naming.accessor? other.method.name = some a) :
      Text.sameName other.method.name (p.accessorName a) = true := by
    obtain ⟨p', a', hp', hname⟩ := exists_owner howner
    cases hp.symm.trans hp'
    cases ha.symm.trans (Property.accessor?_of_sameName hname)
    exact hname
  cases hfind : newcomer properties lowered k a with
  | none =>
    rw [newcomer, Option.map_eq_none_iff, List.find?_eq_none] at hfind
    exact absurd (by simp [howner, ha]) (hfind m (List.mem_reverse.2 hm))
  | some found =>
    obtain ⟨other, hother, rfl⟩ := Option.map_eq_some_iff.1 hfind
    have hmem := List.mem_reverse.1 (List.mem_of_find?_eq_some hother)
    obtain ⟨howner', ha'⟩ : owner? properties other.method.name = some k ∧
        Naming.accessor? other.method.name = some a := by simpa using List.find?_some hother
    have hsame : Text.sameName m.method.name other.method.name = true := by
      rw [Text.sameName_iff, Text.sameName_iff.1 (hname howner ha),
        Text.sameName_iff.1 (hname howner' ha')]
    have : Std.Symm fun a b : LoweredMethod =>
        Text.sameName a.method.name b.method.name = false :=
      ⟨fun a b hab => (Text.sameName_symm _ _).trans hab⟩
    by_contra hne
    have hdiffer := (List.pairwise_map.1 hdistinct).forall hm hmem fun h => hne (by rw [h])
    rw [hsame] at hdiffer
    cases hdiffer

structure Holds (p : Property) (a : Naming.Accessor) (m : LoweredMethod) : Prop where
  slot : p.slot? a = some (m.method.rename (p.accessorName a))
  stamps : ∀ i ∈ (m.method.rename (p.accessorName a)).body.instructions,
    i.method = p.accessorName a
  lines : m.lines.length = (m.method.rename (p.accessorName a)).body.instructions.length

/-- A method of a property that has code fills its slot. -/
theorem exists_holds {t : ObjectType} {lowered : List LoweredMethod}
    (hdistinct : Distinct (lowered.map fun m => m.method.name)) {m : LoweredMethod}
    (hm : m ∈ lowered) (hlines : m.lines.length = m.method.body.instructions.length) {k : Nat}
    {p : Property} (howner : owner? t.properties m.method.name = some k)
    (hp : t.properties[k]? = some p) (hauto : p.isAuto = false) :
    ∃ a q, (populated t lowered).properties[k]? = some q ∧ q.name = p.name ∧
      Text.sameName m.method.name (p.accessorName a) = true ∧ Holds q a m := by
  obtain ⟨p', a, hp', hname⟩ := exists_owner howner
  cases hp.symm.trans hp'
  have hnewcomer := newcomer_eq_some hdistinct hm howner hp (Property.accessor?_of_sameName hname)
  have hsame : (p.filled (newcomer t.properties lowered k)).accessorName a = p.accessorName a := by
    cases a <;> simp [Property.accessorName]
  refine ⟨a, p.filled (newcomer t.properties lowered k), ?_, p.name_filled _, hname, ?_⟩
  · rw [getElem?_populated, hp, Option.map_some]
  constructor
  case slot =>
    rw [p.slot?_filled _ hauto, hnewcomer, hsame]
    rfl
  case stamps =>
    intro i hi
    simp only [Method.rename, Body.rename, List.mem_map] at hi
    obtain ⟨_, _, rfl⟩ := hi
    rfl
  case lines =>
    rw [hlines]
    simp [Method.rename, Body.rename]

structure MembersPlaced (t : ObjectType) (lowered : List LoweredMethod) (result : LoweredType) :
    Prop where
  definition : result.definition = populated t lowered
  once : Distinct (result.definition.methods.map Method.name)
  filled : ∀ m ∈ lowered, ∀ k p, owner? t.properties m.method.name = some k →
    t.properties[k]? = some p → p.isAuto = false →
    ∃ a q, result.definition.properties[k]? = some q ∧ q.name = p.name ∧
      Text.sameName m.method.name (p.accessorName a) = true ∧ Holds q a m
  absent : ∀ m ∈ lowered, ∀ k, owner? t.properties m.method.name = some k →
    m.method ∉ result.definition.methods
  autos : ∀ (k : Nat) (p : Property), t.properties[k]? = some p → p.isAuto = true →
    result.definition.properties[k]? = some p
  descriptions : result.methods = lowered.filterMap (described t)
  lines : ∀ m ∈ lowered, m.lines.length = m.method.body.instructions.length

theorem membersPlaced {t : ObjectType} {lowered : List LoweredMethod} {result : LoweredType}
    (hstates : t.states = [{ name := t.autoState }])
    (hresult : (result.definition, result.methods) = placeMethods t lowered)
    (hdistinct : Distinct (lowered.map fun m => m.method.name))
    (hlines : ∀ m ∈ lowered, m.lines.length = m.method.body.instructions.length) :
    MembersPlaced t lowered result := by
  have hplaced : placeMethods (populated t []) lowered =
      (populated t lowered, lowered.filterMap (described t)) := placeMethods_populated lowered
  rw [populated_nil t hstates, ← hresult] at hplaced
  obtain ⟨hdefinition, hmethods⟩ := Prod.mk.inj hplaced
  constructor
  case definition => exact hdefinition
  case descriptions => exact hmethods
  case lines => exact hlines
  case once =>
    rw [hdefinition]
    simp only [populated, ObjectType.methods, List.flatMap_singleton, List.map_map]
    exact hdistinct.sublist (List.filter_sublist.map _)
  case absent =>
    intro m _ k howner hmem
    rw [hdefinition] at hmem
    simp only [populated, ObjectType.methods, List.flatMap_singleton] at hmem
    obtain ⟨other, hother, hsame⟩ := List.mem_map.1 hmem
    have hfree := owner?_eq_none_iff.2 (List.mem_filter.1 hother).2
    rw [hsame, howner] at hfree
    cases hfree
  case autos =>
    intro k p hp hauto
    rw [hdefinition, getElem?_populated, hp, Option.map_some, p.filled_auto _ hauto]
  case filled =>
    intro m hm k p howner hp hauto
    rw [hdefinition]
    exact exists_holds hdistinct hm (hlines m hm) howner hp hauto

/-- Each lowered method of a type is in its place, and the line numbers of those that are kept are
told in turn. -/
theorem lowerType_membersPlaced {options : Options} {program : Source.Module} {t : TypeDecl}
    {result : LoweredType}
    (hdistinct : Distinct ((t.methods.filter fun m => !m.isConstructor).map MethodDecl.name))
    (h : lowerType options program t = .ok result) :
    MembersPlaced (declareType options t)
      ((t.methods.filter fun m => !m.isConstructor).filterMap fun m =>
        (lowerMethod (options.setting program t) m).toOption) result := by
  obtain ⟨⟨lowered, warnings⟩, hmethods, hpure⟩ := except_bind_ok h
  cases hpure
  cases lowerMethods_eq_filterMap hmethods
  refine membersPlaced rfl rfl (hdistinct.lowered _) fun m hm => ?_
  obtain ⟨d, _, hlower⟩ := lowerMethods_origin hmethods m hm
  exact length_lines hlower

def level : FieldRef :=
  { owner := { name := "Lamp" }, name := "level", type := .int32 }

def readLevel : List Instr :=
  [{ offset := 0, code := .ldarg, operand := .index 0 },
    { offset := 1, code := .ldfld, operand := .field level },
    { offset := 2, code := .ret }]

def lamp : TypeDecl :=
  { name := "Lamp"
    fields := [{ name := "level", type := .int32 }]
    properties := [{ name := "Level", type := .int32 }, PropertyDecl.auto "Power" .int32]
    methods := [
      { name := ".ctor", isConstructor := true, body := readLevel },
      { name := "GET_level", returns := .int32, body := readLevel },
      { name := "get_Power", returns := .int32, body := readLevel },
      { name := "Brightness", returns := .int32, body := readLevel }] }

theorem lowered_lamp : ∃ result, lowerType {} {} lamp = .ok result := by
  obtain ⟨lowered, hlowered, _⟩ : ∃ lowered, lowerMethods (Options.setting {} {} lamp)
      (lamp.methods.filter fun m => !m.isConstructor) = .ok lowered ∧ lowered.1.length = 3 :=
    exists_ok_of_toOption (by decide +kernel)
  rw [lowerType, hlowered]
  exact ⟨_, rfl⟩

theorem lowerType_membersPlaced_lamp :
    Distinct ["GET_level", "get_Power", "Brightness"] ∧
      ∃ result, lowerType {} {} lamp = .ok result ∧ MembersPlaced (declareType {} lamp)
        ((lamp.methods.filter fun m => !m.isConstructor).filterMap fun m =>
          (lowerMethod (Options.setting {} {} lamp) m).toOption) result := by
  have hdistinct : Distinct ["GET_level", "get_Power", "Brightness"] := by decide +kernel
  obtain ⟨result, h⟩ := lowered_lamp
  exact ⟨hdistinct, result, h, lowerType_membersPlaced hdistinct h⟩

end Lowering

end PapyrusBackend
