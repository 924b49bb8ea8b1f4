import Mathlib.Data.List.Perm.Subperm
import PapyrusBackend.Proofs.Container.RoundTrip
import PapyrusBackend.Proofs.Container.YieldedType

namespace PapyrusBackend.Container

variable {known : List String}

theorem yields_methodLines (hknown : Countable known) :
    Yields Read.methodLines known (fun m => m.Fits ∧ m.texts ⊆ known) := by
  refine (yields_text hknown).bind fun type htype => (yields_text hknown).bind fun state hstate => ?_
  refine (yields_text hknown).bind fun name hname => yields_u8.bind fun role _ => ?_
  refine yields_u16.counted.bind fun lines hlines => Yields.pure ⟨hlines.1, ?_⟩
  exact List.cons_subset.mpr ⟨htype, List.cons_subset.mpr ⟨hstate, singleton_subset hname⟩⟩

theorem yields_propertyGroup (hknown : Countable known) :
    Yields Read.propertyGroup known (fun g => g.Fits ∧ g.texts ⊆ known) := by
  refine (yields_text hknown).bind fun object hobject => (yields_text hknown).bind fun name hname => ?_
  refine (yields_text hknown).bind fun documentation hdocumentation => ?_
  refine yields_u32.bind fun userFlags _ => ?_
  refine (yields_text hknown).counted.bind fun properties hproperties => Yields.pure ?_
  exact ⟨hproperties.1, List.cons_subset.mpr ⟨hobject, List.cons_subset.mpr ⟨hname,
    List.cons_subset.mpr ⟨hdocumentation, hproperties.2⟩⟩⟩⟩

theorem yields_structOrder (hknown : Countable known) :
    Yields Read.structOrder known (fun s => s.Fits ∧ s.texts ⊆ known) := by
  refine (yields_text hknown).bind fun type htype => (yields_text hknown).bind fun name hname => ?_
  refine (yields_text hknown).counted.bind fun fields hfields => Yields.pure ⟨hfields.1, ?_⟩
  exact List.cons_subset.mpr ⟨htype, List.cons_subset.mpr ⟨hname, hfields.2⟩⟩

theorem yields_debugInfo (hknown : Countable known) (generation : Generation) :
    Yields (Read.debugInfo generation) known (fun d => d.Fits generation ∧
      d.texts generation ⊆ known ∧
      (generation.isLater = false → d.groups = [] ∧ d.structs = [])) := by
  rw [Read.debugInfo_eq]
  refine yields_u64.bind fun time _ => (yields_methodLines hknown).counted.bind fun methods hm => ?_
  refine (Yields.ite fun _ => (yields_propertyGroup hknown).counted).bind fun groups hg => ?_
  refine (Yields.ite fun _ => (yields_structOrder hknown).counted).bind fun structs hs =>
    Yields.pure ⟨⟨?_, ?_, ?_⟩, ?_, fun hearlier => ⟨hg.2 hearlier, hs.2 hearlier⟩⟩
  · exact ⟨hm.1, fun m hmem => (hm.2 m hmem).1⟩
  · exact fun hlater => ⟨(hg.1 hlater).1, fun g hmem => ((hg.1 hlater).2 g hmem).1⟩
  · exact fun hlater => ⟨(hs.1 hlater).1, fun s hmem => ((hs.1 hlater).2 s hmem).1⟩
  · refine List.append_subset.mpr ⟨flatMap_subset fun m hmem => (hm.2 m hmem).2, ?_⟩
    split
    · next hlater =>
      exact List.append_subset.mpr ⟨flatMap_subset fun g hmem => ((hg.1 hlater).2 g hmem).2,
        flatMap_subset fun s hmem => ((hs.1 hlater).2 s hmem).2⟩
    · exact List.nil_subset _

theorem yields_debugSection (hknown : Countable known) (generation : Generation) :
    Yields (Read.debugSection generation) known (fun debug => ∀ d ∈ debug, d.Fits generation ∧
      d.texts generation ⊆ known ∧
      (generation.isLater = false → d.groups = [] ∧ d.structs = [])) := by
  refine yields_u8.bind fun present _ => ?_
  split
  · rw [map_eq_pure_bind]
    refine (yields_debugInfo hknown generation).bind fun d hd => Yields.pure ?_
    rintro d' ⟨⟩
    exact hd
  · exact Yields.pure nofun

theorem yields_userFlag (hknown : Countable known) :
    Yields Read.userFlag known (fun f => f.texts ⊆ known) := by
  refine (yields_text hknown).bind fun name hname => yields_u8.bind fun index _ => ?_
  exact Yields.pure (singleton_subset hname)

structure SourcedAssembly (known : List String) (a : Assembly) : Prop where
  fits : a.Fits
  texts : a.texts ⊆ known
  normal : { a with corrupted := false }.IsNormal
  calls : ∀ m ∈ a.methods, CallsFit m

theorem yields_content (hknown : Countable known) (generation : Generation) :
    Yields (Read.content generation) known (fun c => ∀ a : Assembly, a.generation = generation →
      a.debug = c.1 → a.userFlags = c.2.1 → a.types = c.2.2 → SourcedAssembly known a) := by
  refine (yields_debugSection hknown generation).bind fun debug hdebug => ?_
  refine (yields_userFlag hknown).counted.bind fun userFlags hflags => ?_
  refine (yields_objectType hknown generation).counted.bind fun types htypes => Yields.pure ?_
  rintro a rfl rfl rfl rfl
  refine ⟨⟨fun d hd => (hdebug d hd).1, hflags.1, htypes.1, fun t ht => (htypes.2 t ht).fits⟩, ?_,
    ⟨fun hearlier d hd => (hdebug d hd).2.2 hearlier, fun t ht => (htypes.2 t ht).normal, rfl⟩, ?_⟩
  · refine List.append_subset.mpr ⟨?_, List.append_subset.mpr ⟨flatMap_subset hflags.2, ?_⟩⟩
    · exact flatMap_subset fun d hd => (hdebug d (Option.mem_toList.mp hd)).2.1
    · exact flatMap_subset fun t ht => (htypes.2 t ht).texts
  · intro m hm
    obtain ⟨t, ht, hmt⟩ := List.mem_flatMap.mp hm
    exact (htypes.2 t ht).calls m hmt

theorem yields_header : Yields Read.header known Header.Fits := by
  refine yields_u32.bind fun _ _ => yields_u8.bind fun _ _ => yields_u8.bind fun _ _ => ?_
  refine yields_u16.bind fun _ _ => yields_u64.bind fun _ _ => ?_
  refine yields_inlineText.bind fun source hsource => yields_inlineText.bind fun user huser => ?_
  exact yields_inlineText.bind fun computer hcomputer => Yields.pure ⟨hsource, huser, hcomputer⟩

theorem yields_stringTable :
    Yields Read.stringTable known (fun t => Countable t.toList ∧ ∀ s ∈ t.toList, Writable s) := by
  refine yields_inlineText.counted.bind fun strings hstrings => Yields.pure ?_
  rwa [StringTable.toList_ofList]

/-- What is read with a table needs no more room than that table. -/
theorem countable_extend {texts : List String} (hknown : Countable known) (h : texts ⊆ known) :
    Countable (extend [] texts) := by
  have hsubset : extend [] texts ⊆ known := by
    intro s hs
    exact h ((mem_extend.mp hs).resolve_left List.not_mem_nil)
  have hsubperm := List.subperm_of_subset (nodup_extend List.nodup_nil texts) hsubset
  exact Nat.lt_of_le_of_lt hsubperm.length_le hknown

/-- A decoded assembly can be encoded and is its own normal form, but for the mark that it was put
right. -/
theorem assembly_ok {generation : Generation} {s s' : Reader} {a : Assembly}
    (hrun : Read.assembly generation s = .ok a s') :
    a.generation = generation ∧ a.Encodable ∧ { a with corrupted := false }.IsNormal ∧
      (∀ m ∈ a.methods, CallsFit m) ∧
      4 ≤ s.rest.length ∧
      a.header.identifier = UInt32.ofNat (ofBytes s.order (s.rest.take 4)) := by
  rw [Read.assembly_eq] at hrun
  obtain ⟨header, t, hheader, hrun⟩ := bind_ok hrun
  obtain ⟨table, t', htable, hrun⟩ := bind_ok hrun
  obtain ⟨_, t'', hset, hrun⟩ := bind_ok hrun
  cases hset
  obtain ⟨⟨debug, userFlags, types⟩, u, hcontent, hrun⟩ := bind_ok hrun
  cases hrun
  obtain ⟨_, hfits⟩ := yields_header s t header rfl hheader
  obtain ⟨_, hcount, hwritable⟩ := yields_stringTable t t' table rfl htable
  obtain ⟨_, hsourced⟩ := yields_content hcount generation _ s' _ rfl hcontent
  obtain ⟨hcontentFits, htexts, hnormal, hcalls⟩ := hsourced
    { generation, header, debug, userFlags, types, corrupted := s'.corrupted } rfl rfl rfl rfl
  have hencodable : Assembly.Encodable
      { generation, header, debug, userFlags, types, corrupted := s'.corrupted } :=
    ⟨hcontentFits, hfits, countable_extend hcount htexts, fun s hs => hwritable s (htexts hs)⟩
  exact ⟨rfl, hencodable, hnormal, hcalls, header_identifier hheader⟩

theorem decode_ok {options : DecodeOptions} {data : List UInt8} {a : Assembly}
    (h : decode options data = .ok a) :
    ∃ s', detect data = .ok a.generation ∧ Read.assembly a.generation
      { rest := data, order := a.generation.order, policy := options.policy } = .ok a s' := by
  simp only [decode, bind, Except.bind] at h
  cases hdetect : detect data with
  | error fault => simp [hdetect] at h
  | ok generation =>
    simp only [hdetect] at h
    cases hcheck : checkGeneration options.expected generation with
    | error fault => simp [hcheck] at h
    | ok u =>
      simp only [hcheck] at h
      split at h
      · next a' s' hrun =>
        cases h
        obtain ⟨rfl, _⟩ := assembly_ok hrun
        exact ⟨s', rfl, hrun⟩
      · cases h

/-- Whatever is decoded, put right or not, can be encoded and decoded again without loss. -/
theorem encode_decode (options : DecodeOptions) (data : List UInt8) (a : Assembly)
    (hdecode : decode options data = .ok a) :
    ∃ bytes, encode a = .ok bytes ∧
      ∀ again : DecodeOptions, again.expected = none ∨ again.expected = some a.generation →
        decode again bytes = .ok { a with corrupted := false } := by
  obtain ⟨s', hdetect, hrun⟩ := decode_ok hdecode
  obtain ⟨_, hencodable, hnormal, hcalls, _, hidentifier⟩ := assembly_ok hrun
  have hmagic : a.header.identifier = magic := by
    rw [hidentifier, take_of_detect hdetect, ofBytes_toBytes]
    decide
  obtain ⟨bytes, hencode⟩ := encode_of_encodable hencodable
  refine ⟨bytes, hencode, fun again hagain => ?_⟩
  rw [decode_of_encode hmagic hcalls hagain hencode]
  exact congrArg Except.ok (Assembly.normal_eq_self_iff.mpr hnormal)

/-- A container for the later generation that only a lenient reader takes. It holds one text twice, and
most of what it says could have been said in another way. -/
def oddContainer : List UInt8 :=
  -- magic number, version, game, time and three empty texts
  [0xDE, 0xC0, 0x57, 0xFA, 3, 9, 2, 0] ++ List.replicate 8 0 ++ [0, 0, 0, 0, 0, 0] ++
  -- the string table
  [2, 0, 1, 0, 0x61, 1, 0, 0x61] ++
  -- one described method in a state that the table does not have, of unknown role
  [7] ++ List.replicate 8 0 ++ [1, 0, 0, 0, 9, 0, 1, 0, 77, 0, 0, 0, 0, 0, 0] ++
  -- no user flags, and one type of a wrong size
  [0, 0, 1, 0, 0, 0, 1, 2, 3, 4, 0, 0, 0, 0, 1, 0, 0, 0, 0, 1, 0, 0, 0] ++
  -- a field whose value is a truth value other than 0 and 1
  [1, 0, 1, 0, 0, 0, 0, 0, 0, 0, 5, 200, 1] ++
  -- a read-only property with flags of no meaning
  [1, 0, 0, 0, 1, 0, 1, 0, 0, 0, 0, 0, 0xF1] ++
  -- its getter: a call with a negative number of further arguments, and a jump out of the body
  [0, 0, 1, 0, 0, 0, 0, 0, 0, 0, 0, 0, 0, 2, 0] ++
  [0x19, 1, 0, 0, 1, 1, 0, 1, 0, 0, 3, 0xFF, 0xFF, 0xFF, 0xFF] ++
  [0x14, 3, 0x64, 0, 0, 0] ++
  -- no states
  [0, 0]

theorem encode_decode_oddContainer :
    ∃ a, decode {} oddContainer = .ok a ∧ a.corrupted = true ∧
      ∃ bytes, encode a = .ok bytes ∧
        ∀ again : DecodeOptions, again.expected = none ∨ again.expected = some a.generation →
          decode again bytes = .ok { a with corrupted := false } := by
  have hcorrupted : (decode {} oddContainer).toOption.map Assembly.corrupted = some true := by
    decide +kernel
  cases hdecode : decode {} oddContainer with
  | error fault =>
    rw [hdecode] at hcorrupted
    cases hcorrupted
  | ok a =>
    rw [hdecode] at hcorrupted
    exact ⟨a, rfl, Option.some.inj hcorrupted, encode_decode {} oddContainer a hdecode⟩

end PapyrusBackend.Container
