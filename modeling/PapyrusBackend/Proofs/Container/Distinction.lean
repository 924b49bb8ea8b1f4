import PapyrusBackend.Proofs.Container.RoundTrip

namespace PapyrusBackend.Container

namespace Write

/-- What is written for a list depends on the writers of its items only. -/
theorem each_congr {item : α → Write Unit} {item' : β → Write Unit} {xs : List α} {ys : List β}
    (h : xs.map item = ys.map item') : each item xs = each item' ys := by
  induction xs generalizing ys with
  | nil =>
    cases ys with
    | nil => rfl
    | cons y ys => simp at h
  | cons x xs ih =>
    cases ys with
    | nil => simp at h
    | cons y ys =>
      simp only [List.map_cons, List.cons.injEq] at h
      rw [each, each, h.1, ih h.2]

theorem counted_congr (what : String) {item : α → Write Unit} {item' : β → Write Unit}
    {xs : List α} {ys : List β} (h : xs.map item = ys.map item') :
    counted what item xs = counted what item' ys := by
  have hlength : xs.length = ys.length := by simpa using congrArg List.length h
  rw [counted, counted, hlength, each_congr h]

theorem counted_map (what : String) {item : α → Write Unit} {g : α → α} (xs : List α)
    (h : ∀ x, item (g x) = item x) : counted what item (xs.map g) = counted what item xs := by
  apply counted_congr
  simp [h]

theorem instruction_placed (owner : String) (length k : Nat) (i : Instruction) :
    instruction (i.placed owner length k) = instruction i := rfl

theorem counted_placed (what owner : String) (length : Nat) (code : List Instruction) :
    counted what instruction (code.mapIdx (Instruction.placed owner length)) =
      counted what instruction code := by
  apply counted_congr
  apply List.ext_getElem?
  intro k
  cases hk : code[k]? <;> simp [hk, instruction_placed]

@[simp] theorem method_normalAs (name : String) (m : Method) :
    method (m.normalAs name) = method m := by
  simp only [method, Method.normalAs, Body.normal, counted_placed]

@[simp] theorem namedMethod_normal (m : Method) : namedMethod m.normal = namedMethod m := by
  rw [namedMethod, Method.normal, method_normalAs]
  rfl

@[simp] theorem optionalMethod_normalAs (name : String) (m : Option Method) :
    optionalMethod (m.map (Method.normalAs name)) = optionalMethod m := by
  cases m <;> simp [optionalMethod]

@[simp] theorem field_normal (generation : Generation) (f : Field) :
    field generation (f.normal generation) = field generation f := by
  cases generation <;> rfl

@[simp] theorem accessors_normal (name : String) (a : Accessors) :
    accessors (a.normal name) = accessors a := by
  cases a <;> simp [accessors, Accessors.normal]

/-- Flags that agree with the accessors are stored as they are. -/
theorem storedFlags_normal (p : Property) : p.normal.storedFlags = p.storedFlags := by
  have hauto : ∀ f : BitVec 8, UInt8.ofBitVec f ||| Property.autoFlag ||| Property.autoFlag =
      UInt8.ofBitVec f ||| Property.autoFlag := by decide
  have hexplicit : ∀ (f : BitVec 8) (get set : Bool),
      let access := (if get then Property.readFlag else 0) |||
        (if set then Property.writeFlag else 0)
      (((UInt8.ofBitVec f &&& 0xF8) ||| access) &&& 0xF8) ||| access =
        (UInt8.ofBitVec f &&& 0xF8) ||| access := by decide
  cases ha : p.accessors with
  | auto backing =>
    simp only [Property.normal, Property.storedFlags, ha, Accessors.normal]
    exact hauto p.flags.toBitVec
  | explicit getter setter =>
    simp only [Property.normal, Property.storedFlags, ha, Accessors.normal, Property.accessFlags,
      Option.isSome_map]
    exact hexplicit p.flags.toBitVec getter.isSome setter.isSome

@[simp] theorem property_normal (p : Property) : property p.normal = property p := by
  rw [property_eq, property_eq, storedFlags_normal]
  simp only [Property.normal, accessors_normal]

@[simp] theorem state_normal (s : State) : state s.normal = state s := by
  simp only [state, State.normal, counted_map "methods" s.methods namedMethod_normal]

theorem typeContent_normal (generation : Generation) (t : ObjectType) :
    typeContent generation (t.normal generation) = typeContent generation t := by
  simp only [typeContent_eq, ObjectType.normal,
    counted_map "fields" t.fields (field_normal generation),
    counted_map "properties" t.properties property_normal,
    counted_map "states" t.states state_normal]
  -- what is left differs only where the earlier generation writes nothing
  cases generation <;> rfl

@[simp] theorem objectType_normal (generation : Generation) (t : ObjectType) :
    objectType generation (t.normal generation) = objectType generation t := by
  rw [objectType, objectType, typeContent_normal]
  rfl

@[simp] theorem debugInfo_normal (generation : Generation) (d : DebugInfo) :
    debugInfo generation (d.normal generation) = debugInfo generation d := by
  cases generation <;> rfl

@[simp] theorem debugSection_normal (generation : Generation) (d : Option DebugInfo) :
    debugSection generation (d.map (DebugInfo.normal generation)) =
      debugSection generation d := by
  cases d <;> simp [debugSection]

theorem content_normal (a : Assembly) :
    content a.generation a.normal = content a.generation a := by
  simp only [content_eq, Assembly.normal, debugSection_normal,
    counted_map "types" a.types (objectType_normal a.generation)]

end Write

theorem encode_eq_encode_normal (a : Assembly) : encode a = encode a.normal := by
  have hcontent : Write.content a.normal.generation a.normal = Write.content a.generation a :=
    Write.content_normal a
  simp only [encode, encodeFor, hcontent]
  rfl

/-- An assembly and its normal form have the same container or the same fault, so that assemblies
with one normal form cannot be told apart. Assemblies with different normal forms have different
containers. -/
theorem encode_normal (a b : Assembly) :
    encode a = encode a.normal ∧
      (a.normal = b.normal → encode a = encode b) ∧
      ∀ bytes : List UInt8,
        (∀ c ∈ [a, b], c.header.identifier = magic ∧
          ∀ m ∈ c.methods, ∀ i ∈ m.body.instructions, i.variadic.length < 2 ^ 31) →
        encode a = .ok bytes → encode b = .ok bytes → a.normal = b.normal := by
  refine ⟨encode_eq_encode_normal a, fun hnormal => ?_, fun bytes hlimits ha hb => ?_⟩
  · calc encode a = encode a.normal := encode_eq_encode_normal a
      _ = encode b.normal := by rw [hnormal]
      _ = encode b := (encode_eq_encode_normal b).symm
  · have hread : ∀ c ∈ [a, b], encode c = .ok bytes → decode {} bytes = .ok c.normal :=
      fun c hc => decode_of_encode (hlimits c hc).1 (hlimits c hc).2 (.inl rfl)
    have hsame := (hread a (by simp) ha).symm.trans (hread b (by simp) hb)
    rwa [Except.ok.injEq] at hsame

/-- The same content as in the loose assembly, with other data where the earlier generation has no
room, other stale flags and other names and places of code. -/
def staleAssembly : Assembly :=
  let restamp (m : Method) : Method :=
    { m with
      name := "unused"
      body := { m.body with
        owner := "nobody"
        instructions := m.body.instructions.map fun i =>
          { i with offset := 3, target := some (.source 8), method := "elsewhere" } } }
  { looseAssembly with
    debug := some { structs := [⟨"A", "T", ["x"]⟩] }
    types := looseAssembly.types.map fun t =>
      { t with
        flags := 1
        structs := []
        fields := t.fields.map fun f => { f with flags := 0, documentation := "another" }
        properties := t.properties.map fun p =>
          { p with
            flags := 0xF9
            accessors := .explicit (p.getter?.map restamp) none } }
    corrupted := false }

theorem encode_normal_staleAssembly :
    staleAssembly ≠ looseAssembly ∧ ∃ bytes, encode staleAssembly = .ok bytes ∧
      encode looseAssembly = .ok bytes ∧ staleAssembly.normal = looseAssembly.normal := by
  obtain ⟨bytes, hloose⟩ := encode_of_encodable looseAssembly_encodable
  have hstale : encode staleAssembly = .ok bytes :=
    ((encode_normal staleAssembly looseAssembly).2.1 (by decide)).trans hloose
  refine ⟨by decide, bytes, hstale, hloose, ?_⟩
  exact (encode_normal staleAssembly looseAssembly).2.2 bytes (by decide) hstale hloose

end PapyrusBackend.Container
