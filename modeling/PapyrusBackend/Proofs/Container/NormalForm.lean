import PapyrusBackend.Assembly

namespace PapyrusBackend

/-- The target of the instruction at place `k` of a body with `length` instructions: that of a jump
whose distance stays in the body. -/
def Instruction.landing (length k : Nat) (i : Instruction) : Option Target :=
  match i.opcode.jumpArgument? with
  | none => none
  | some argument =>
    match i.arguments[argument]? with
    | some (.int d) =>
      if 0 ≤ k + d.toInt ∧ k + d.toInt ≤ length then some (.position (k + d.toInt).toNat) else none
    | _ => none

def Instruction.placed (owner : String) (length k : Nat) (i : Instruction) : Instruction :=
  { i with target := i.landing length k, offset := k, method := owner }

def Body.normal (owner : String) (b : Body) : Body :=
  { b with
    owner
    instructions := b.instructions.mapIdx (Instruction.placed owner b.instructions.length) }

def Method.normalAs (name : String) (m : Method) : Method :=
  { m with name, body := m.body.normal name }

def Method.normal (m : Method) : Method := m.normalAs m.name

/-- A field of a type. Only members of structs keep their documentation. -/
def Field.normal (generation : Generation) (f : Field) : Field :=
  { f with flags := if generation.isLater then f.flags else 0, documentation := "" }

def Accessors.normal (property : String) : Accessors → Accessors
  | auto backing => auto backing
  | explicit getter setter =>
    explicit (getter.map (Method.normalAs (Property.getterName property)))
      (setter.map (Method.normalAs (Property.setterName property)))

def Property.normal (p : Property) : Property :=
  { p with flags := p.storedFlags, accessors := p.accessors.normal p.name }

def State.normal (s : State) : State := { s with methods := s.methods.map Method.normal }

def ObjectType.normal (generation : Generation) (t : ObjectType) : ObjectType :=
  { t with
    flags := if generation.isLater then t.flags else 0
    structs := if generation.isLater then t.structs else []
    fields := t.fields.map (Field.normal generation)
    properties := t.properties.map Property.normal
    states := t.states.map State.normal }

def DebugInfo.normal (generation : Generation) (d : DebugInfo) : DebugInfo :=
  { d with
    groups := if generation.isLater then d.groups else []
    structs := if generation.isLater then d.structs else [] }

def Assembly.normal (a : Assembly) : Assembly :=
  { a with
    debug := a.debug.map (DebugInfo.normal a.generation)
    types := a.types.map (ObjectType.normal a.generation)
    corrupted := false }

structure Method.IsPlaced (m : Method) : Prop where
  owner : m.body.owner = m.name
  code : ∀ (k : Nat) (i : Instruction), m.body.instructions[k]? = some i →
    i.target = i.landing m.body.instructions.length k ∧ i.offset = k ∧ i.method = m.name

structure Field.IsNormal (generation : Generation) (f : Field) : Prop where
  flags : generation.isLater = false → f.flags = 0
  documentation : f.documentation = ""

/-- The flags agree with the accessors, and these are named for the property. -/
structure Property.IsNormal (p : Property) : Prop where
  flags : p.flags = p.storedFlags
  getter : ∀ m ∈ p.getter?, m.name = getterName p.name ∧ m.IsPlaced
  setter : ∀ m ∈ p.setter?, m.name = setterName p.name ∧ m.IsPlaced

structure ObjectType.IsNormal (generation : Generation) (t : ObjectType) : Prop where
  flags : generation.isLater = false → t.flags = 0
  structs : generation.isLater = false → t.structs = []
  fields : ∀ f ∈ t.fields, f.IsNormal generation
  properties : ∀ p ∈ t.properties, p.IsNormal
  methods : ∀ m ∈ t.methods, m.IsPlaced

structure Assembly.IsNormal (a : Assembly) : Prop where
  debug : a.generation.isLater = false → ∀ d ∈ a.debug, d.groups = [] ∧ d.structs = []
  types : ∀ t ∈ a.types, t.IsNormal a.generation
  corrupted : a.corrupted = false

theorem map_eq_self_iff {f : α → α} {xs : List α} : xs.map f = xs ↔ ∀ x ∈ xs, f x = x := by
  have hid : xs.map f = xs.map id ↔ ∀ x ∈ xs, f x = id x := List.map_inj_left
  rwa [List.map_id] at hid

theorem Method.normalAs_eq_self_iff {m : Method} {name : String} :
    m.normalAs name = m ↔ m.name = name ∧ m.IsPlaced := by
  constructor
  · intro h
    have hname : m.name = name := (congrArg Method.name h).symm
    subst hname
    have hbody : m.body.normal m.name = m.body := congrArg Method.body h
    refine ⟨rfl, (congrArg Body.owner hbody).symm, fun k i hi => ?_⟩
    have hcode := List.mapIdx_eq_iff.mp (congrArg Body.instructions hbody) k
    rw [hi, Option.map_some, Option.some.injEq] at hcode
    exact ⟨congrArg Instruction.target hcode, congrArg Instruction.offset hcode,
      congrArg Instruction.method hcode⟩
  · rintro ⟨rfl, howner, hcode⟩
    have hinstructions : m.body.instructions.mapIdx
        (Instruction.placed m.name m.body.instructions.length) = m.body.instructions := by
      rw [List.mapIdx_eq_iff]
      intro k
      cases hi : m.body.instructions[k]? with
      | none => rfl
      | some i =>
        obtain ⟨htarget, hoffset, hmethod⟩ := hcode k i hi
        rw [Option.map_some, Instruction.placed, ← htarget, ← hmethod]
        subst hoffset
        rfl
    have hbody : m.body.normal m.name = m.body := by
      rw [Body.normal, hinstructions, ← howner]
    rw [Method.normalAs, hbody]

theorem Method.normal_eq_self_iff {m : Method} : m.normal = m ↔ m.IsPlaced := by
  rw [Method.normal, normalAs_eq_self_iff]
  exact and_iff_right rfl

theorem Field.normal_eq_self_iff {generation : Generation} {f : Field} :
    f.normal generation = f ↔ f.IsNormal generation := by
  constructor
  · intro h
    refine ⟨fun hlater => ?_, (congrArg Field.documentation h).symm⟩
    have hflags := congrArg Field.flags h
    simp only [Field.normal, hlater, Bool.false_eq_true, if_false] at hflags
    exact hflags.symm
  · rintro ⟨hflags, hdocumentation⟩
    cases hlater : generation.isLater with
    | true => simp only [Field.normal, hlater, if_true, ← hdocumentation]
    | false =>
      simp only [Field.normal, hlater, Bool.false_eq_true, if_false, ← hdocumentation,
        ← hflags hlater]

theorem optionMap_eq_self_iff {f : α → α} {x : Option α} :
    x.map f = x ↔ ∀ a ∈ x, f a = a := by
  cases x <;> simp

theorem Property.normal_eq_self_iff {p : Property} : p.normal = p ↔ p.IsNormal := by
  have haccessors : p.accessors.normal p.name = p.accessors ↔
      (∀ m ∈ p.getter?, m.normalAs (getterName p.name) = m) ∧
      (∀ m ∈ p.setter?, m.normalAs (setterName p.name) = m) := by
    cases ha : p.accessors with
    | auto backing => simp [Accessors.normal, Property.getter?, Property.setter?, ha]
    | explicit getter setter =>
      simp only [Accessors.normal, Property.getter?, Property.setter?, ha, Accessors.explicit.injEq,
        optionMap_eq_self_iff]
  simp only [Method.normalAs_eq_self_iff] at haccessors
  constructor
  · intro h
    obtain ⟨hgetter, hsetter⟩ := haccessors.mp (congrArg Property.accessors h)
    exact ⟨(congrArg Property.flags h).symm, hgetter, hsetter⟩
  · rintro ⟨hflags, hgetter, hsetter⟩
    rw [Property.normal, haccessors.mpr ⟨hgetter, hsetter⟩, ← hflags]

theorem State.normal_eq_self_iff {s : State} :
    s.normal = s ↔ ∀ m ∈ s.methods, m.IsPlaced := by
  have hmethods : s.methods.map Method.normal = s.methods ↔ ∀ m ∈ s.methods, m.IsPlaced := by
    simp only [map_eq_self_iff, Method.normal_eq_self_iff]
  constructor
  · intro h
    exact hmethods.mp (congrArg State.methods h)
  · intro h
    rw [State.normal, hmethods.mpr h]

/-- What only the later generation has is at its default in the earlier one. -/
theorem ite_later_eq_iff {generation : Generation} {a b : α} :
    (if generation.isLater then a else b) = a ↔ (generation.isLater = false → a = b) := by
  cases generation.isLater with
  | true => simp
  | false => simp [eq_comm]

theorem ObjectType.normal_eq_self_iff {generation : Generation} {t : ObjectType} :
    t.normal generation = t ↔ t.IsNormal generation := by
  have hfields : t.fields.map (Field.normal generation) = t.fields ↔
      ∀ f ∈ t.fields, f.IsNormal generation := by
    simp only [map_eq_self_iff, Field.normal_eq_self_iff]
  have hproperties : t.properties.map Property.normal = t.properties ↔
      ∀ p ∈ t.properties, p.IsNormal := by
    simp only [map_eq_self_iff, Property.normal_eq_self_iff]
  have hstates : t.states.map State.normal = t.states ↔ ∀ m ∈ t.methods, m.IsPlaced := by
    simp only [map_eq_self_iff, State.normal_eq_self_iff, ObjectType.methods, List.mem_flatMap]
    constructor
    · rintro h m ⟨s, hs, hm⟩
      exact h s hs m hm
    · intro h s hs m hm
      exact h m ⟨s, hs, hm⟩
  constructor
  · intro h
    exact ⟨ite_later_eq_iff.mp (congrArg ObjectType.flags h),
      ite_later_eq_iff.mp (congrArg ObjectType.structs h),
      hfields.mp (congrArg ObjectType.fields h),
      hproperties.mp (congrArg ObjectType.properties h),
      hstates.mp (congrArg ObjectType.states h)⟩
  · intro h
    rw [ObjectType.normal, ite_later_eq_iff.mpr h.flags, ite_later_eq_iff.mpr h.structs,
      hfields.mpr h.fields, hproperties.mpr h.properties, hstates.mpr h.methods]

theorem DebugInfo.normal_eq_self_iff {generation : Generation} {d : DebugInfo} :
    d.normal generation = d ↔ (generation.isLater = false → d.groups = [] ∧ d.structs = []) := by
  constructor
  · intro h hlater
    exact ⟨ite_later_eq_iff.mp (congrArg DebugInfo.groups h) hlater,
      ite_later_eq_iff.mp (congrArg DebugInfo.structs h) hlater⟩
  · intro h
    rw [DebugInfo.normal, ite_later_eq_iff.mpr fun hlater => (h hlater).1,
      ite_later_eq_iff.mpr fun hlater => (h hlater).2]

theorem Assembly.normal_eq_self_iff {a : Assembly} : a.normal = a ↔ a.IsNormal := by
  have hdebug : a.debug.map (DebugInfo.normal a.generation) = a.debug ↔
      (a.generation.isLater = false → ∀ d ∈ a.debug, d.groups = [] ∧ d.structs = []) := by
    simp only [optionMap_eq_self_iff, DebugInfo.normal_eq_self_iff]
    exact ⟨fun h hlater d hd => h d hd hlater, fun h d hd hlater => h hlater d hd⟩
  have htypes : a.types.map (ObjectType.normal a.generation) = a.types ↔
      ∀ t ∈ a.types, t.IsNormal a.generation := by
    simp only [map_eq_self_iff, ObjectType.normal_eq_self_iff]
  constructor
  · intro h
    exact ⟨hdebug.mp (congrArg Assembly.debug h), htypes.mp (congrArg Assembly.types h),
      (congrArg Assembly.corrupted h).symm⟩
  · intro h
    rw [Assembly.normal, hdebug.mpr h.debug, htypes.mpr h.types, ← h.corrupted]

end PapyrusBackend
