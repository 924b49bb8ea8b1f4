import PapyrusBackend.Proofs.Container.CarriedCode

namespace PapyrusBackend.Container

theorem carries_field (generation : Generation) (f : Field) :
    Carries (Write.field generation f) (Read.field generation) (f.normal generation) := by
  rw [Read.field_eq]
  refine (carries_text f.name).bind ?_
  refine (carries_text f.type).bind ?_
  refine (carries_u32 f.userFlags).bind ?_
  refine (carries_value f.value).bind ?_
  exact (Carries.ite fun _ => carries_u8 f.flags).map fun flags =>
    (⟨f.name, f.type, f.userFlags, f.value, flags, ""⟩ : Field)

theorem carries_structField {generation : Generation} (hlater : generation.isLater = true)
    (f : Field) :
    Carries (Write.structField generation f) (Read.structField generation) f := by
  have h := (carries_field generation f).bind
    (k := fun read => do return { read with documentation := ← Read.indexedText })
    ((carries_text f.documentation).map fun documentation =>
      { f.normal generation with documentation })
  have hf : { f.normal generation with documentation := f.documentation } = f := by
    simp only [Field.normal, hlater, if_true]
  rwa [hf] at h

theorem carries_struct {generation : Generation} (hlater : generation.isLater = true)
    (s : Struct) : Carries (Write.struct generation s) (Read.struct generation) s := by
  have h := Carries.countedSame "struct members" (carries_structField hlater) s.fields
  exact (carries_text s.name).bind (h.map (Struct.mk s.name))

theorem carries_optionalMethod {m : Option Method} (hcalls : ∀ m' ∈ m, CallsFit m')
    (name : String) :
    Carries (Write.optionalMethod m) (Read.optionalMethod m.isSome name)
      (m.map (Method.normalAs name)) := by
  cases m with
  | none => exact Carries.pure _
  | some m => exact (carries_method (hcalls m rfl) name).map some

/-- The flags that are stored for a property tell which accessors follow. -/
theorem auto_storedFlags {p : Property} {backing : String} (h : p.accessors = .auto backing) :
    p.storedFlags &&& Property.autoFlag ≠ 0 := by
  have hbits : ∀ f : BitVec 8,
      (UInt8.ofBitVec f ||| Property.autoFlag) &&& Property.autoFlag ≠ 0 := by decide
  simp only [Property.storedFlags, h]
  exact hbits p.flags.toBitVec

theorem explicit_storedFlags {p : Property} {getter setter : Option Method}
    (h : p.accessors = .explicit getter setter) :
    p.storedFlags &&& Property.autoFlag = 0 ∧
      decide (p.storedFlags &&& Property.readFlag ≠ 0) = getter.isSome ∧
      decide (p.storedFlags &&& Property.writeFlag ≠ 0) = setter.isSome := by
  have hbits : ∀ (f : BitVec 8) (get set : Bool),
      let stored := (UInt8.ofBitVec f &&& 0xF8) |||
        ((if get then Property.readFlag else 0) ||| (if set then Property.writeFlag else 0))
      stored &&& Property.autoFlag = 0 ∧ decide (stored &&& Property.readFlag ≠ 0) = get ∧
        decide (stored &&& Property.writeFlag ≠ 0) = set := by decide
  simp only [Property.storedFlags, h]
  exact hbits p.flags.toBitVec getter.isSome setter.isSome

theorem carries_accessors {p : Property} (hcalls : ∀ m ∈ p.methods, CallsFit m) :
    Carries (Write.accessors p.accessors) (Read.accessors p.name p.storedFlags)
      (p.accessors.normal p.name) := by
  cases ha : p.accessors with
  | auto backing =>
    rw [Read.accessors_auto (auto_storedFlags ha)]
    exact (carries_text backing).map Accessors.auto
  | explicit getter setter =>
    obtain ⟨hauto, hget, hset⟩ := explicit_storedFlags ha
    have hmethods : p.methods = getter.toList ++ setter.toList := by
      simp only [Property.methods, Property.getter?, Property.setter?, ha]
    rw [hmethods] at hcalls
    have hgetter : ∀ m ∈ getter, CallsFit m := fun m hm =>
      hcalls m (List.mem_append_left _ (Option.mem_toList.mpr hm))
    have hsetter : ∀ m ∈ setter, CallsFit m := fun m hm =>
      hcalls m (List.mem_append_right _ (Option.mem_toList.mpr hm))
    rw [Read.accessors_explicit hauto, hget, hset]
    refine (carries_optionalMethod hgetter _).bind ?_
    exact (carries_optionalMethod hsetter _).map fun setter => Accessors.explicit _ setter

theorem carries_property {p : Property} (hcalls : ∀ m ∈ p.methods, CallsFit m) :
    Carries (Write.property p) Read.property p.normal := by
  rw [Write.property_eq]
  refine (carries_text p.name).bind ?_
  refine (carries_text p.type).bind ?_
  refine (carries_text p.documentation).bind ?_
  refine (carries_u32 p.userFlags).bind ?_
  refine (carries_u8 p.storedFlags).bind ?_
  exact (carries_accessors hcalls).map fun accessors =>
    (⟨p.name, p.type, p.documentation, p.userFlags, p.storedFlags, accessors⟩ : Property)

theorem carries_state {s : State} (hcalls : ∀ m ∈ s.methods, CallsFit m) :
    Carries (Write.state s) Read.state s.normal := by
  have h := Carries.counted "methods" fun m hm => carries_namedMethod (hcalls m hm)
  exact (carries_text s.name).bind (h.map (State.mk s.name))

def typeMethods (t : ObjectType) : List Method :=
  t.methods ++ t.properties.flatMap Property.methods

theorem carries_objectType (generation : Generation) {t : ObjectType}
    (hcalls : ∀ m ∈ typeMethods t, CallsFit m) :
    Carries (Write.objectType generation t) (Read.objectType generation)
      (t.normal generation) := by
  have hfields := Carries.counted "fields" fun f (_ : f ∈ t.fields) => carries_field generation f
  have hproperties := Carries.counted "properties" fun p (hp : p ∈ t.properties) =>
    carries_property fun m hm => hcalls m
      (List.mem_append_right _ (List.mem_flatMap.mpr ⟨p, hp, hm⟩))
  have hstates := Carries.counted "states" fun s (hs : s ∈ t.states) =>
    carries_state fun m hm => hcalls m
      (List.mem_append_left _ (List.mem_flatMap.mpr ⟨s, hs, hm⟩))
  rw [Write.objectType, Write.typeContent_eq, Read.objectType_eq]
  refine (carries_text t.name).bind (Carries.framed ?_)
  refine (carries_text t.base).bind ?_
  refine (carries_text t.documentation).bind ?_
  refine (Carries.ite fun _ => carries_u8 t.flags).bind ?_
  refine (carries_u32 t.userFlags).bind ?_
  refine (carries_text t.autoState).bind ?_
  refine (Carries.ite fun hlater =>
    Carries.countedSame "structs" (carries_struct hlater) t.structs).bind ?_
  refine hfields.bind (hproperties.bind ?_)
  exact hstates.map fun states => (⟨t.name, t.base, t.documentation, _, t.userFlags, t.autoState,
    _, _, _, states⟩ : ObjectType)

end PapyrusBackend.Container
