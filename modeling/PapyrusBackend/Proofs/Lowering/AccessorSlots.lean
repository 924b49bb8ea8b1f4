import PapyrusBackend.Proofs.Lowering.MemberPlaces

namespace PapyrusBackend

namespace Source

def PropertyDecl.listed? (p : PropertyDecl) : Naming.Accessor → Option String
  | .get => p.getter
  | .set => p.setter

end Source

namespace Property

def flagOf : Naming.Accessor → UInt8
  | .get => readFlag
  | .set => writeFlag

@[simp] theorem flags_filled (p : Property) (newcomer : Naming.Accessor → Option Method) :
    (p.filled newcomer).flags = p.flags := by
  rw [filled]
  split <;> rfl

theorem slot?_auto {p : Property} (h : p.isAuto = true) (a : Naming.Accessor) :
    p.slot? a = none := by
  cases haccessors : p.accessors with
  | auto backing => cases a <;> simp [slot?, getter?, setter?, haccessors]
  | explicit getter setter => simp [isAuto, haccessors] at h

theorem storedFlags_auto {p : Property} (h : p.isAuto = true)
    (hflags : p.flags = readFlag ||| writeFlag ||| autoFlag) : p.flags = p.storedFlags := by
  cases haccessors : p.accessors with
  | auto backing =>
    simp only [storedFlags, haccessors, hflags]
    decide
  | explicit getter setter => simp [isAuto, haccessors] at h

section

variable {f g : Naming.Accessor → Option Method}

theorem accessFlags_eq_iff :
    accessFlags (f .get) (f .set) = accessFlags (g .get) (g .set) ↔
      ∀ a, (f a).isSome = (g a).isSome := by
  have hcases : accessFlags (f .get) (f .set) = accessFlags (g .get) (g .set) ↔
      (f .get).isSome = (g .get).isSome ∧ (f .set).isSome = (g .set).isSome := by
    unfold accessFlags
    cases (f .get).isSome <;> cases (f .set).isSome <;> cases (g .get).isSome <;>
      cases (g .set).isSome <;> decide
  rw [hcases]
  constructor
  · rintro ⟨hget, hset⟩ (_ | _)
    · exact hget
    · exact hset
  · exact fun h => ⟨h .get, h .set⟩

theorem accessFlags_and_flagOf (a : Naming.Accessor) :
    accessFlags (f .get) (f .set) &&& flagOf a ≠ 0 ↔ (f a).isSome = true := by
  unfold accessFlags
  cases a <;> cases (f .get).isSome <;> cases (f .set).isSome <;> decide

/-- Flags that were made for some accessors are in accord with the slots if the same ones are
filled. -/
theorem eq_storedFlags_iff {p : Property} (h : p.isAuto = false)
    (hflags : p.flags = accessFlags (f .get) (f .set)) :
    p.flags = p.storedFlags ↔ ∀ a, (f a).isSome = (p.slot? a).isSome := by
  cases haccessors : p.accessors with
  | auto backing => simp [isAuto, haccessors] at h
  | explicit getter setter =>
    have hnone : accessFlags (f .get) (f .set) &&& 0xF8 = 0 := by
      unfold accessFlags
      cases (f .get).isSome <;> cases (f .set).isSome <;> decide
    have hstored : p.storedFlags = accessFlags (p.slot? .get) (p.slot? .set) := by
      simp only [storedFlags, haccessors, hflags, hnone, UInt8.zero_or, slot?, getter?, setter?]
    rw [hstored, hflags, accessFlags_eq_iff]

end

end Property

namespace Lowering

open Source

def accessorStub (p : PropertyDecl) : Naming.Accessor → Method
  | .get => { name := Property.getterName p.name, returns := Naming.typeName p.type }
  | .set =>
    { name := Property.setterName p.name
      returns := "None"
      parameters := [⟨"value", Naming.typeName p.type⟩] }

def declaredSlot (p : PropertyDecl) (a : Naming.Accessor) : Option Method :=
  (p.listed? a).map fun _ => accessorStub p a

section

variable {p : PropertyDecl}

theorem isAuto_declareProperty : (declareProperty p).isAuto = p.backing.isSome := by
  rw [declareProperty]
  cases p.backing <;> rfl

theorem slot?_declareProperty (h : p.backing = none) (a : Naming.Accessor) :
    (declareProperty p).slot? a = declaredSlot p a := by
  cases a with
  | get =>
    simp only [declareProperty, h, Property.explicit, Property.slot?, Property.getter?,
      declaredSlot, PropertyDecl.listed?, Option.map_map]
    rfl
  | set =>
    simp only [declareProperty, h, Property.explicit, Property.slot?, Property.setter?,
      declaredSlot, PropertyDecl.listed?, Option.map_map]
    rfl

theorem flags_declareProperty (h : p.backing = none) : (declareProperty p).flags =
    Property.accessFlags (declaredSlot p .get) (declaredSlot p .set) := by
  rw [declareProperty, h]
  simp [Property.explicit, Property.accessFlags, declaredSlot, PropertyDecl.listed?]

@[simp] theorem isSome_declaredSlot (a : Naming.Accessor) :
    (declaredSlot p a).isSome = (p.listed? a).isSome := Option.isSome_map

end

section

variable (options : Options) (program : Source.Module) (t : TypeDecl)

def placedMethods : List LoweredMethod :=
  (t.methods.filter fun m => !m.isConstructor).filterMap fun m =>
    (lowerMethod (options.setting program t) m).toOption

/-- A method of the type that can be lowered belongs to a slot of the `k`-th property. -/
structure FillsSlot (k : Nat) (a : Naming.Accessor) (d : MethodDecl) (made : LoweredMethod) :
    Prop where
  mem : d ∈ t.methods
  ordinary : d.isConstructor = false
  lowered : lowerMethod (options.setting program t) d = .ok made
  owner : owner? (declareType options t).properties d.name = some k
  accessor : Naming.accessor? d.name = some a

inductive SlotHolds (k : Nat) (p : PropertyDecl) (a : Naming.Accessor) : Option Method → Prop
  | method {d : MethodDecl} {made : LoweredMethod} (h : FillsSlot options program t k a d made) :
      SlotHolds k p a (some (made.method.rename ((declareProperty p).accessorName a)))
  | stub (hnone : ∀ d made, ¬FillsSlot options program t k a d made)
      (hlisted : (p.listed? a).isSome = true) : SlotHolds k p a (some (accessorStub p a))
  | empty (hnone : ∀ d made, ¬FillsSlot options program t k a d made)
      (hlisted : p.listed? a = none) : SlotHolds k p a none

def settledProperty (k : Nat) (p : PropertyDecl) : Property :=
  (declareProperty p).filled
    (newcomer (declareType options t).properties (placedMethods options program t) k)

variable {options program t}

theorem mem_placedMethods {made : LoweredMethod} : made ∈ placedMethods options program t ↔
    ∃ d ∈ t.methods, d.isConstructor = false ∧
      lowerMethod (options.setting program t) d = .ok made := by
  constructor
  · intro h
    obtain ⟨d, hd, hlowered⟩ := List.mem_filterMap.1 h
    obtain ⟨hmem, hordinary⟩ := List.mem_filter.1 hd
    exact ⟨d, hmem, by simpa using hordinary, ok_of_toOption hlowered⟩
  · rintro ⟨d, hmem, hordinary, hlowered⟩
    refine List.mem_filterMap.2 ⟨d, List.mem_filter.2 ⟨hmem, by simp [hordinary]⟩, ?_⟩
    rw [hlowered]
    rfl

theorem lowerType_definition {result : LoweredType}
    (h : lowerType options program t = .ok result) :
    result.definition = populated (declareType options t) (placedMethods options program t) := by
  obtain ⟨⟨lowered, warnings⟩, hmethods, hpure⟩ := except_bind_ok h
  cases hpure
  cases lowerMethods_eq_filterMap hmethods
  have hplaced : placeMethods (populated (declareType options t) [])
      (placedMethods options program t) = _ := placeMethods_populated _
  rw [populated_nil _ rfl] at hplaced
  exact congrArg Prod.fst hplaced

theorem getElem?_lowered {result : LoweredType} (h : lowerType options program t = .ok result)
    {k : Nat} {p : PropertyDecl} (hp : t.properties[k]? = some p) :
    result.definition.properties[k]? = some (settledProperty options program t k p) := by
  rw [lowerType_definition h, getElem?_populated]
  simp only [declareType, List.getElem?_map, hp, Option.map_some, settledProperty]

/-- A slot gets a method if there is one that belongs to it. -/
theorem newcomer_cases (k : Nat) (a : Naming.Accessor) :
    (∃ d made, FillsSlot options program t k a d made ∧
        newcomer (declareType options t).properties (placedMethods options program t) k a =
          some made.method) ∨
      (∀ d made, ¬FillsSlot options program t k a d made) ∧
        newcomer (declareType options t).properties (placedMethods options program t) k a =
          none := by
  cases hnewcomer : newcomer (declareType options t).properties (placedMethods options program t)
      k a with
  | some m =>
    obtain ⟨made, hfound, rfl⟩ := Option.map_eq_some_iff.1 hnewcomer
    obtain ⟨d, hmem, hordinary, hlowered⟩ :=
      mem_placedMethods.1 (List.mem_reverse.1 (List.mem_of_find?_eq_some hfound))
    have hplace := List.find?_some hfound
    simp only [name_lowered hlowered, Bool.and_eq_true, beq_iff_eq] at hplace
    exact .inl ⟨d, made, ⟨hmem, hordinary, hlowered, hplace.1, hplace.2⟩, rfl⟩
  | none =>
    refine .inr ⟨fun d made h => ?_, rfl⟩
    rw [newcomer, Option.map_eq_none_iff, List.find?_eq_none] at hnewcomer
    have hmem := mem_placedMethods.2 ⟨d, h.mem, h.ordinary, h.lowered⟩
    refine hnewcomer made (List.mem_reverse.2 hmem) ?_
    simp [name_lowered h.lowered, h.owner, h.accessor]

variable (options program t) (k : Nat) {p : PropertyDecl}

theorem name_settledProperty : (settledProperty options program t k p).name = p.name := by
  rw [settledProperty, Property.name_filled, name_declareProperty]

theorem isAuto_settledProperty :
    (settledProperty options program t k p).isAuto = p.backing.isSome := by
  rw [settledProperty, Property.isAuto_filled, isAuto_declareProperty]

theorem flags_settledProperty :
    (settledProperty options program t k p).flags = (declareProperty p).flags := by
  rw [settledProperty, Property.flags_filled]

theorem slotHolds_settledProperty (h : p.backing = none) (a : Naming.Accessor) :
    SlotHolds options program t k p a ((settledProperty options program t k p).slot? a) := by
  have hauto : (declareProperty p).isAuto = false := by
    rw [isAuto_declareProperty, h]
    rfl
  rw [settledProperty, Property.slot?_filled _ _ hauto, slot?_declareProperty h]
  obtain ⟨d, made, hfills, hnewcomer⟩ | ⟨hnone, hnewcomer⟩ := newcomer_cases k a
  · rw [hnewcomer]
    exact .method hfills
  · rw [hnewcomer, declaredSlot]
    cases hlisted : p.listed? a with
    | none => exact .empty hnone hlisted
    | some name => exact .stub hnone (by rw [hlisted]; rfl)

variable {options program t}

theorem SlotHolds.isSome_iff {k : Nat} {a : Naming.Accessor} {slot : Option Method}
    (h : SlotHolds options program t k p a slot) :
    slot.isSome = true ↔
      (p.listed? a).isSome = true ∨ ∃ d made, FillsSlot options program t k a d made := by
  cases h with
  | method hfills => exact iff_of_true rfl (.inr ⟨_, _, hfills⟩)
  | stub _ hlisted => exact iff_of_true rfl (.inl hlisted)
  | empty hnone hlisted =>
    refine iff_of_false Bool.false_ne_true ?_
    rintro (hsome | ⟨d, made, hfills⟩)
    · rw [hlisted] at hsome
      cases hsome
    · exact hnone d made hfills

end

/-- Where the methods of a lowered type come from. Those in states are what methods of the source
are lowered to. A slot has such a method under the name of the accessor, or else what the
declaration says of it. -/
structure MethodOrigins (options : Options) (program : Source.Module) (t : TypeDecl)
    (definition : ObjectType) : Prop where
  methods : ∀ m ∈ definition.methods, ∃ d ∈ t.methods, d.isConstructor = false ∧
    ∃ made, lowerMethod (options.setting program t) d = .ok made ∧ m = made.method
  count : definition.properties.length = t.properties.length
  autos : ∀ (k : Nat) (p : PropertyDecl), t.properties[k]? = some p → p.backing.isSome = true →
    ∃ q, definition.properties[k]? = some q ∧ q.name = p.name ∧ ∀ a, q.slot? a = none
  slots : ∀ (k : Nat) (p : PropertyDecl), t.properties[k]? = some p → p.backing = none →
    ∃ q, definition.properties[k]? = some q ∧ q.name = p.name ∧
      ∀ a, SlotHolds options program t k p a (q.slot? a)

theorem lowerType_methodOrigins {options : Options} {program : Source.Module} {t : TypeDecl}
    {result : LoweredType} (h : lowerType options program t = .ok result) :
    MethodOrigins options program t result.definition := by
  constructor
  case methods =>
    intro m hm
    rw [lowerType_definition h] at hm
    simp only [populated, ObjectType.methods, List.flatMap_singleton] at hm
    obtain ⟨made, hmade, rfl⟩ := List.mem_map.1 hm
    obtain ⟨d, hd, hordinary, hlowered⟩ := mem_placedMethods.1 (List.mem_filter.1 hmade).1
    exact ⟨d, hd, hordinary, made, hlowered, rfl⟩
  case count =>
    rw [lowerType_definition h]
    simp [populated, declareType]
  case autos =>
    intro k p hp hbacking
    have hauto := (isAuto_settledProperty options program t k).trans hbacking
    exact ⟨_, getElem?_lowered h hp, name_settledProperty options program t k,
      Property.slot?_auto hauto⟩
  case slots =>
    intro k p hp hbacking
    exact ⟨_, getElem?_lowered h hp, name_settledProperty options program t k,
      slotHolds_settledProperty options program t k hbacking⟩

theorem lowerType_methodOrigins_lamp :
    ∃ result, lowerType {} {} lamp = .ok result ∧ MethodOrigins {} {} lamp result.definition := by
  obtain ⟨result, h⟩ := lowered_lamp
  exact ⟨result, h, lowerType_methodOrigins h⟩

/-- The getter reads a local that is not there, and there is no setter. -/
def brokenDimmer : TypeDecl :=
  { name := "Dimmer"
    properties := [{ name := "Level", type := .int32 }]
    methods := [
      { name := "get_Level"
        returns := .int32
        body := [
          { offset := 0, code := .ldloc, operand := .index 0 },
          { offset := 1, code := .ret }] }] }

/-- Both slots hold stubs, although no method can be lowered. -/
theorem stubs_without_methods :
    ∃ result q, lowerType {} {} brokenDimmer = .ok result ∧ q ∈ result.definition.properties ∧
      q.getter? = some { name := "get_Level", returns := "Int" } ∧
      q.setter? =
        some { name := "set_Level", returns := "None", parameters := [⟨"value", "Int"⟩] } ∧
      ∀ d ∈ brokenDimmer.methods, ∀ made,
        lowerMethod (Options.setting {} {} brokenDimmer) d ≠ .ok made := by
  have hfails : ∀ d ∈ brokenDimmer.methods,
      (lowerMethod (Options.setting {} {} brokenDimmer) d).toOption.isNone = true := by
    decide +kernel
  obtain ⟨result, h, hslots⟩ : ∃ result, lowerType {} {} brokenDimmer = .ok result ∧
      result.definition.properties.map (fun q => (q.getter?, q.setter?)) =
        [(some { name := "get_Level", returns := "Int" },
          some { name := "set_Level", returns := "None", parameters := [⟨"value", "Int"⟩] })] :=
    exists_ok_of_toOption (by decide +kernel)
  obtain ⟨q, hq, hslots⟩ := List.mem_map.1 (hslots ▸ List.mem_singleton_self _)
  obtain ⟨hgetter, hsetter⟩ := Prod.mk.inj hslots
  refine ⟨result, q, h, hq, hgetter, hsetter, fun d hd made hmade => ?_⟩
  have hnone := hfails d hd
  rw [hmade] at hnone
  cases hnone

/-- What the flags of the `k`-th property tell: which accessors the declaration lists. They are in
accord with the slots just if no method fills a slot that is not listed. -/
structure Advertised (options : Options) (program : Source.Module) (t : TypeDecl) (k : Nat)
    (p : PropertyDecl) (q : Property) : Prop where
  name : q.name = p.name
  autos : p.backing.isSome = true →
    q.flags = Property.readFlag ||| Property.writeFlag ||| Property.autoFlag
  flags : p.backing = none →
    ∀ a, q.flags &&& Property.flagOf a ≠ 0 ↔ (p.listed? a).isSome = true
  slots : p.backing = none → ∀ a, (q.slot? a).isSome = true ↔
    (p.listed? a).isSome = true ∨ ∃ d made, FillsSlot options program t k a d made
  agree : q.flags = q.storedFlags ↔ p.backing.isSome = true ∨
    ∀ a d made, FillsSlot options program t k a d made → (p.listed? a).isSome = true

section

variable (options : Options) (program : Source.Module) (t : TypeDecl) (k : Nat) {p : PropertyDecl}

theorem flags_settledProperty_auto (h : p.backing.isSome = true) :
    (settledProperty options program t k p).flags =
      Property.readFlag ||| Property.writeFlag ||| Property.autoFlag := by
  obtain ⟨backing, hbacking⟩ := Option.isSome_iff_exists.1 h
  rw [flags_settledProperty, declareProperty, hbacking]
  rfl

theorem flags_eq_storedFlags_iff (h : p.backing = none) :
    (settledProperty options program t k p).flags =
        (settledProperty options program t k p).storedFlags ↔
      ∀ a d made, FillsSlot options program t k a d made → (p.listed? a).isSome = true := by
  have hauto : (settledProperty options program t k p).isAuto = false := by
    rw [isAuto_settledProperty, h]
    rfl
  have hflags := (flags_settledProperty options program t k).trans (flags_declareProperty h)
  have hslots (a : Naming.Accessor) :=
    (slotHolds_settledProperty options program t k h a).isSome_iff
  rw [Property.eq_storedFlags_iff hauto hflags]
  constructor
  · intro hagree a d made hfills
    rw [← isSome_declaredSlot, hagree a, hslots a]
    exact .inr ⟨d, made, hfills⟩
  · intro hlisted a
    rw [isSome_declaredSlot, Bool.eq_iff_iff, hslots a]
    refine ⟨.inl, ?_⟩
    rintro (hsome | ⟨d, made, hfills⟩)
    · exact hsome
    · exact hlisted a d made hfills

theorem advertised_settledProperty (p : PropertyDecl) :
    Advertised options program t k p (settledProperty options program t k p) := by
  constructor
  case name => exact name_settledProperty options program t k
  case autos => exact flags_settledProperty_auto options program t k
  case flags =>
    intro hbacking a
    rw [flags_settledProperty, flags_declareProperty hbacking, Property.accessFlags_and_flagOf,
      isSome_declaredSlot]
  case slots =>
    intro hbacking a
    exact (slotHolds_settledProperty options program t k hbacking a).isSome_iff
  case agree =>
    cases hbacking : p.backing with
    | some backing =>
      have hsome : p.backing.isSome = true := by rw [hbacking]; rfl
      have hauto := (isAuto_settledProperty options program t k).trans hsome
      have hflags := flags_settledProperty_auto options program t k hsome
      exact iff_of_true (Property.storedFlags_auto hauto hflags) (.inl rfl)
    | none =>
      rw [flags_eq_storedFlags_iff options program t k hbacking, Option.isSome_none]
      exact ⟨.inr, fun h => h.resolve_left Bool.false_ne_true⟩

end

/-- The flags of a property tell which accessors its declaration lists, and they are in accord with
the slots just if no method fills another slot. -/
theorem lowerType_advertised {options : Options} {program : Source.Module} {t : TypeDecl}
    {result : LoweredType} (h : lowerType options program t = .ok result) {k : Nat}
    {p : PropertyDecl} (hp : t.properties[k]? = some p) :
    ∃ q, result.definition.properties[k]? = some q ∧ Advertised options program t k p q :=
  ⟨_, getElem?_lowered h hp, advertised_settledProperty options program t k p⟩

def levelProperty : PropertyDecl := { name := "Level", type := .int32, setter := none }

def setLevel : MethodDecl :=
  { name := "set_Level"
    parameters := [{ name := "value", type := .int32 }]
    body := [{ offset := 0, code := .ret }] }

def dimmer : TypeDecl :=
  { name := "Dimmer"
    properties := [levelProperty]
    methods := [
      { name := "get_Level"
        returns := .int32
        body := [
          { offset := 0, code := .ldcI4, operand := .int 1 },
          { offset := 1, code := .ret }] },
      setLevel] }

theorem lowered_dimmer : ∃ result, lowerType { policy := .strict } {} dimmer = .ok result := by
  obtain ⟨lowered, hlowered, _⟩ : ∃ lowered,
      lowerMethods (Options.setting { policy := .strict } {} dimmer)
        (dimmer.methods.filter fun m => !m.isConstructor) = .ok lowered ∧ lowered.1.length = 2 :=
    exists_ok_of_toOption (by decide +kernel)
  rw [lowerType, hlowered]
  exact ⟨_, rfl⟩

theorem lowerType_advertised_dimmer :
    ∃ result q, lowerType { policy := .strict } {} dimmer = .ok result ∧
      dimmer.properties[0]? = some levelProperty ∧ result.definition.properties[0]? = some q ∧
      Advertised { policy := .strict } {} dimmer 0 levelProperty q := by
  obtain ⟨result, h⟩ := lowered_dimmer
  have hp : dimmer.properties[0]? = some levelProperty := rfl
  obtain ⟨q, hq, hadvertised⟩ := lowerType_advertised h hp
  exact ⟨result, q, h, hp, hq, hadvertised⟩

theorem dimmer_fillsSlot :
    ∃ made, FillsSlot { policy := .strict } {} dimmer 0 .set setLevel made := by
  obtain ⟨made, hmade, _⟩ : ∃ made,
      lowerMethod (Options.setting { policy := .strict } {} dimmer) setLevel = .ok made ∧
        made.lines.length = 1 :=
    exists_ok_of_toOption (by decide +kernel)
  have hname : Text.sameName setLevel.name
      ((declareProperty levelProperty).accessorName .set) = true :=
    Text.sameName_iff.2 rfl
  refine ⟨made, by simp [dimmer], rfl, hmade, ?_, Property.accessor?_of_sameName hname⟩
  show List.findIdx? _ [declareProperty levelProperty] = some 0
  rw [List.findIdx?_cons, if_pos (Property.hasAccessor_iff.2 ⟨.set, hname⟩)]

/-- The property has a setter, and its flags tell of a getter only. -/
theorem setter_not_advertised :
    ∃ result q, lowerType { policy := .strict } {} dimmer = .ok result ∧
      q ∈ result.definition.properties ∧ q.setter?.isSome = true ∧
      q.flags &&& Property.writeFlag = 0 ∧ q.flags ≠ q.storedFlags := by
  obtain ⟨result, h⟩ := lowered_dimmer
  obtain ⟨made, hfills⟩ := dimmer_fillsSlot
  have hp : dimmer.properties[0]? = some levelProperty := rfl
  have hadvertised := advertised_settledProperty { policy := .strict } {} dimmer 0 levelProperty
  refine ⟨result, _, h, List.mem_of_getElem? (getElem?_lowered h hp), ?_, ?_, fun hagree => ?_⟩
  · exact (hadvertised.slots rfl .set).2 (.inr ⟨_, made, hfills⟩)
  · by_contra hne
    cases (hadvertised.flags rfl .set).1 hne
  · obtain hbacking | hlisted := hadvertised.agree.1 hagree
    · cases hbacking
    · cases hlisted .set _ made hfills

end Lowering

end PapyrusBackend
