import PapyrusBackend.Proofs.Container.CarriedType
import PapyrusBackend.Proofs.Container.YieldedCode

namespace PapyrusBackend.Container

variable {known : List String}

theorem yields_field (hknown : Countable known) (generation : Generation) :
    Yields (Read.field generation) known
      (fun f => f.texts ⊆ known ∧ f.IsNormal generation) := by
  rw [Read.field_eq]
  refine (yields_text hknown).bind fun name hname => (yields_text hknown).bind fun type htype => ?_
  refine yields_u32.bind fun userFlags _ => (yields_value hknown).bind fun value hvalue => ?_
  refine (Yields.ite fun _ => yields_u8).bind fun flags hflags => Yields.pure ⟨?_, hflags.2, rfl⟩
  exact List.cons_subset.mpr ⟨hname, List.cons_subset.mpr ⟨htype, hvalue⟩⟩

theorem yields_structField (hknown : Countable known) (generation : Generation) :
    Yields (Read.structField generation) known (fun f => f.memberTexts ⊆ known) := by
  refine (yields_field hknown generation).bind fun f hf => ?_
  refine (yields_text hknown).bind fun documentation hdocumentation => Yields.pure ?_
  exact List.append_subset.mpr ⟨hf.1, singleton_subset hdocumentation⟩

theorem yields_struct (hknown : Countable known) (generation : Generation) :
    Yields (Read.struct generation) known (fun s => s.Fits ∧ s.texts ⊆ known) := by
  refine (yields_text hknown).bind fun name hname => ?_
  refine (yields_structField hknown generation).counted.bind fun fields hfields => Yields.pure ?_
  exact ⟨hfields.1, List.cons_subset.mpr ⟨hname, flatMap_subset hfields.2⟩⟩

structure SourcedProperty (known : List String) (p : Property) : Prop where
  fits : p.Fits
  texts : p.texts ⊆ known
  normal : p.IsNormal
  calls : ∀ m ∈ p.methods, CallsFit m

theorem storedFlags_auto {p : Property} {backing : String} (h : p.accessors = .auto backing)
    (hauto : p.flags &&& Property.autoFlag ≠ 0) : p.storedFlags = p.flags := by
  have hbits : ∀ f : BitVec 8, (UInt8.ofBitVec f) &&& Property.autoFlag ≠ 0 →
      UInt8.ofBitVec f ||| Property.autoFlag = UInt8.ofBitVec f := by decide
  simp only [Property.storedFlags, h]
  exact hbits p.flags.toBitVec hauto

theorem storedFlags_explicit {p : Property} {getter setter : Option Method}
    (h : p.accessors = .explicit getter setter) (hauto : p.flags &&& Property.autoFlag = 0)
    (hget : getter.isSome = decide (p.flags &&& Property.readFlag ≠ 0))
    (hset : setter.isSome = decide (p.flags &&& Property.writeFlag ≠ 0)) :
    p.storedFlags = p.flags := by
  have hbits : ∀ f : BitVec 8, (UInt8.ofBitVec f) &&& Property.autoFlag = 0 →
      (UInt8.ofBitVec f &&& 0xF8) |||
        ((if decide (UInt8.ofBitVec f &&& Property.readFlag ≠ 0) then Property.readFlag else 0) |||
          (if decide (UInt8.ofBitVec f &&& Property.writeFlag ≠ 0) then Property.writeFlag
            else 0)) = UInt8.ofBitVec f := by decide
  simp only [Property.storedFlags, h, Property.accessFlags, hget, hset]
  exact hbits p.flags.toBitVec hauto

/-- The accessors that flags ask for make a property whose flags agree with them. -/
theorem yields_accessors (hknown : Countable known) (name : String) (flags : UInt8) :
    Yields (Read.accessors name flags) known (fun accessors =>
      ∀ p : Property, p.name = name → p.flags = flags → p.accessors = accessors →
        [p.name, p.type, p.documentation] ⊆ known → SourcedProperty known p) := by
  by_cases hauto : flags &&& Property.autoFlag = 0
  · rw [Read.accessors_explicit hauto]
    refine (yields_optionalMethod hknown _ _).bind fun getter hgetter => ?_
    refine (yields_optionalMethod hknown _ _).bind fun setter hsetter => Yields.pure ?_
    rintro p rfl rfl haccessors hfront
    have hget : p.getter? = getter := by simp only [Property.getter?, haccessors]
    have hset : p.setter? = setter := by simp only [Property.setter?, haccessors]
    have hmethods : ∀ m ∈ p.methods, SourcedMethod known m := by
      intro m hm
      rw [Property.methods, hget, hset] at hm
      obtain hm | hm := List.mem_append.mp hm
      · exact (hgetter.2 m (Option.mem_toList.mp hm)).1
      · exact (hsetter.2 m (Option.mem_toList.mp hm)).1
    refine ⟨fun m hm => (hmethods m hm).fits, ?_, ⟨?_, ?_, ?_⟩, fun m hm => (hmethods m hm).calls⟩
    · rw [Property.texts, haccessors]
      refine List.append_subset.mpr ⟨hfront, List.append_subset.mpr ⟨?_, ?_⟩⟩
      · exact flatMap_subset fun m hm => (hgetter.2 m (Option.mem_toList.mp hm)).1.texts
      · exact flatMap_subset fun m hm => (hsetter.2 m (Option.mem_toList.mp hm)).1.texts
    · exact (storedFlags_explicit haccessors hauto hgetter.1 hsetter.1).symm
    · intro m hm
      rw [hget] at hm
      exact ⟨(hgetter.2 m hm).2, (hgetter.2 m hm).1.placed⟩
    · intro m hm
      rw [hset] at hm
      exact ⟨(hsetter.2 m hm).2, (hsetter.2 m hm).1.placed⟩
  · rw [Read.accessors_auto hauto]
    refine (yields_text hknown).bind fun backing hbacking => Yields.pure ?_
    rintro p rfl rfl haccessors hfront
    have hget : p.getter? = none := by simp only [Property.getter?, haccessors]
    have hset : p.setter? = none := by simp only [Property.setter?, haccessors]
    have hmethods : p.methods = [] := by rw [Property.methods, hget, hset]; rfl
    refine ⟨?_, ?_, ⟨(storedFlags_auto haccessors hauto).symm, ?_, ?_⟩, ?_⟩
    · rw [Property.Fits, hmethods]
      exact fun m hm => absurd hm List.not_mem_nil
    · rw [Property.texts, haccessors]
      exact List.append_subset.mpr ⟨hfront, singleton_subset hbacking⟩
    · rw [hget]
      exact fun m hm => absurd hm (Option.not_mem_none m)
    · rw [hset]
      exact fun m hm => absurd hm (Option.not_mem_none m)
    · rw [hmethods]
      exact fun m hm => absurd hm List.not_mem_nil

theorem yields_property (hknown : Countable known) :
    Yields Read.property known (SourcedProperty known) := by
  refine (yields_text hknown).bind fun name hname => (yields_text hknown).bind fun type htype => ?_
  refine (yields_text hknown).bind fun documentation hdocumentation => ?_
  refine yields_u32.bind fun userFlags _ => yields_u8.bind fun flags _ => ?_
  refine (yields_accessors hknown name flags).bind fun accessors haccessors => Yields.pure ?_
  apply haccessors _ rfl rfl rfl
  exact List.cons_subset.mpr ⟨hname, List.cons_subset.mpr ⟨htype, singleton_subset hdocumentation⟩⟩

theorem yields_state (hknown : Countable known) :
    Yields Read.state known (fun s => s.Fits ∧ s.texts ⊆ known ∧
      ∀ m ∈ s.methods, m.IsPlaced ∧ CallsFit m) := by
  refine (yields_text hknown).bind fun name hname => ?_
  refine (yields_namedMethod hknown).counted.bind fun methods hmethods => Yields.pure ?_
  obtain ⟨hcount, hmethods⟩ := hmethods
  refine ⟨⟨hcount, fun m hm => (hmethods m hm).1.fits⟩, ?_, ?_⟩
  · refine List.cons_subset.mpr ⟨hname, flatMap_subset fun m hm => ?_⟩
    exact List.cons_subset.mpr ⟨(hmethods m hm).2, (hmethods m hm).1.texts⟩
  · intro m hm
    exact ⟨(hmethods m hm).1.placed, (hmethods m hm).1.calls⟩

structure SourcedType (generation : Generation) (known : List String) (t : ObjectType) : Prop where
  fits : t.Fits generation
  texts : t.texts generation ⊆ known
  normal : t.IsNormal generation
  calls : ∀ m ∈ typeMethods t, CallsFit m

theorem yields_objectType (hknown : Countable known) (generation : Generation) :
    Yields (Read.objectType generation) known (SourcedType generation known) := by
  rw [Read.objectType_eq]
  refine (yields_text hknown).bind fun name hname => yields_u32.bind fun _ _ => ?_
  refine (yields_text hknown).bind fun base hbase => ?_
  refine (yields_text hknown).bind fun documentation hdocumentation => ?_
  refine (Yields.ite fun _ => yields_u8).bind fun flags hflags => ?_
  refine yields_u32.bind fun userFlags _ => (yields_text hknown).bind fun autoState hauto => ?_
  refine (Yields.ite fun _ => (yields_struct hknown generation).counted).bind
    fun structs hstructs => ?_
  refine (yields_field hknown generation).counted.bind fun fields hfields => ?_
  refine (yields_property hknown).counted.bind fun properties hproperties => ?_
  refine (yields_state hknown).counted.bind fun states hstates => Yields.pure ?_
  have hfits : ∀ s ∈ states, s.Fits := fun s hs => (hstates.2 s hs).1
  have hplaced : ∀ m ∈ states.flatMap State.methods, m.IsPlaced ∧ CallsFit m := by
    intro m hm
    obtain ⟨s, hs, hms⟩ := List.mem_flatMap.mp hm
    exact (hstates.2 s hs).2.2 m hms
  refine ⟨⟨?_, hfields.1, ⟨hproperties.1, fun p hp => (hproperties.2 p hp).fits⟩,
    ⟨hstates.1, hfits⟩⟩, ?_, ⟨hflags.2, hstructs.2, fun f hf => (hfields.2 f hf).2,
      fun p hp => (hproperties.2 p hp).normal, fun m hm => (hplaced m hm).1⟩, ?_⟩
  · intro hlater
    exact ⟨(hstructs.1 hlater).1, fun s hs => ((hstructs.1 hlater).2 s hs).1⟩
  · have hfront : [name, base, documentation, autoState] ⊆ known :=
      List.cons_subset.mpr ⟨hname, List.cons_subset.mpr ⟨hbase,
        List.cons_subset.mpr ⟨hdocumentation, singleton_subset hauto⟩⟩⟩
    refine List.append_subset.mpr ⟨hfront, List.append_subset.mpr ⟨?_, ?_⟩⟩
    · split
      · next hlater => exact flatMap_subset fun s hs => ((hstructs.1 hlater).2 s hs).2
      · exact List.nil_subset _
    · refine List.append_subset.mpr ⟨flatMap_subset fun f hf => (hfields.2 f hf).1, ?_⟩
      exact List.append_subset.mpr ⟨flatMap_subset fun p hp => (hproperties.2 p hp).texts,
        flatMap_subset fun s hs => (hstates.2 s hs).2.1⟩
  · intro m hm
    obtain hm | hm := List.mem_append.mp hm
    · exact (hplaced m hm).2
    · obtain ⟨p, hp, hmp⟩ := List.mem_flatMap.mp hm
      exact (hproperties.2 p hp).calls m hmp

end PapyrusBackend.Container
