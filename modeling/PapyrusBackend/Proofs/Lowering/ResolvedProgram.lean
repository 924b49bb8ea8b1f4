import PapyrusBackend.Proofs.Container.RoundTrip
import PapyrusBackend.Proofs.Lowering.Landing
import PapyrusBackend.Proofs.Lowering.Origin

namespace PapyrusBackend

/-- An instruction at place `k` of a body with `length` instructions: if it is a jump, it leads to a
place of the body and carries the distance. -/
def Instruction.IsResolved (length k : Nat) (i : Instruction) : Prop :=
  match i.opcode.jumpArgument? with
  | none => i.target = none
  | some argument =>
    ∃ t, t ≤ length ∧ i.target = some (.position t) ∧
      i.arguments[argument]? = some (.int (Int32.ofInt (t - k)))

structure Method.IsResolved (m : Method) : Prop where
  owner : m.body.owner = m.name
  code : ∀ (k : Nat) (i : Instruction), m.body.instructions[k]? = some i →
    i.IsResolved m.body.instructions.length k ∧ i.offset = k ∧ i.method = m.name

structure Property.IsResolved (p : Property) : Prop where
  getter : ∀ m ∈ p.getter?, m.name = getterName p.name ∧ m.IsResolved
  setter : ∀ m ∈ p.setter?, m.name = setterName p.name ∧ m.IsResolved

/-- Normal but for the flags of properties and the length of the code. -/
structure ObjectType.IsResolved (generation : Generation) (t : ObjectType) : Prop where
  flags : generation.isLater = false → t.flags = 0
  structs : generation.isLater = false → t.structs = []
  fields : ∀ f ∈ t.fields, f.IsNormal generation
  properties : ∀ p ∈ t.properties, p.IsResolved
  methods : ∀ m ∈ t.methods, m.IsResolved

theorem Method.IsResolved.of_empty {m : Method} (howner : m.body.owner = m.name)
    (h : m.body.instructions = []) : m.IsResolved :=
  ⟨howner, fun k i hi => by rw [h] at hi; cases hi⟩

theorem Method.IsResolved.rename {m : Method} (h : m.IsResolved) (name : String) :
    (m.rename name).IsResolved := by
  refine ⟨rfl, fun k i hi => ?_⟩
  simp only [Method.rename, Body.rename, List.getElem?_map, Option.map_eq_some_iff] at hi
  obtain ⟨j, hj, rfl⟩ := hi
  simp only [Method.rename, Body.rename, List.length_map]
  exact ⟨(h.code k j hj).1, (h.code k j hj).2.1, trivial⟩

theorem Property.MadeOf.isResolved {P : Method → Prop} {p : Property} (h : p.MadeOf P)
    (hP : ∀ m, P m → m.IsResolved) : p.IsResolved where
  getter m hm := by
    obtain ⟨made, hmade, rfl⟩ := h.getter m hm
    exact ⟨rfl, (hP made hmade).rename _⟩
  setter m hm := by
    obtain ⟨made, hmade, rfl⟩ := h.setter m hm
    exact ⟨rfl, (hP made hmade).rename _⟩

def Property.withStoredFlags (p : Property) : Property := { p with flags := p.storedFlags }

def ObjectType.withStoredFlags (t : ObjectType) : ObjectType :=
  { t with properties := t.properties.map Property.withStoredFlags }

def Assembly.withStoredFlags (a : Assembly) : Assembly :=
  { a with types := a.types.map ObjectType.withStoredFlags }

theorem Property.withStoredFlags_eq_self_iff {p : Property} :
    p.withStoredFlags = p ↔ p.flags = p.storedFlags := by
  constructor
  · exact fun h => (congrArg Property.flags h).symm
  · intro h
    rw [withStoredFlags, ← h]

theorem ObjectType.withStoredFlags_eq_self_iff {t : ObjectType} :
    t.withStoredFlags = t ↔ ∀ p ∈ t.properties, p.flags = p.storedFlags := by
  simp only [← Property.withStoredFlags_eq_self_iff, ← map_eq_self_iff]
  constructor
  · exact congrArg ObjectType.properties
  · intro h
    rw [withStoredFlags, h]

theorem Assembly.withStoredFlags_eq_self_iff {a : Assembly} :
    a.withStoredFlags = a ↔ ∀ t ∈ a.types, ∀ p ∈ t.properties, p.flags = p.storedFlags := by
  simp only [← ObjectType.withStoredFlags_eq_self_iff, ← map_eq_self_iff]
  constructor
  · exact congrArg Assembly.types
  · intro h
    rw [withStoredFlags, h]

/-- As long as distances do not wrap, they tell where jumps lead. -/
theorem Instruction.IsResolved.landing_eq {length k : Nat} {i : Instruction}
    (h : i.IsResolved length k) (hk : k < length) (hlength : length < 2 ^ 31) :
    i.landing length k = i.target := by
  rw [Instruction.landing]
  rw [Instruction.IsResolved] at h
  cases hargument : i.opcode.jumpArgument? with
  | none =>
    rw [hargument] at h
    exact h.symm
  | some argument =>
    rw [hargument] at h
    obtain ⟨t, ht, htarget, hdistance⟩ := h
    have hword : (Int32.ofInt (t - k)).toInt = t - k :=
      Int32.toInt_ofInt_of_le (by omega) (by omega)
    have hplace : (k + (t - k) : Int) = t := by omega
    simp only [hdistance, hword, hplace, htarget]
    rw [if_pos ⟨by omega, by omega⟩, Int.toNat_natCast]

theorem Method.IsResolved.isPlaced {m : Method} (h : m.IsResolved) (hfits : m.Fits) :
    m.IsPlaced := by
  refine ⟨h.owner, fun k i hi => ?_⟩
  obtain ⟨hresolved, hoffset, hmethod⟩ := h.code k i hi
  have hk : k < m.body.instructions.length := (List.getElem?_eq_some_iff.1 hi).1
  have hlength : m.body.instructions.length < 2 ^ 31 := Nat.lt_trans hfits.instructions (by decide)
  exact ⟨(hresolved.landing_eq hk hlength).symm, hoffset, hmethod⟩

theorem Property.IsResolved.normal_eq {p : Property} (h : p.IsResolved) (hfits : p.Fits) :
    p.normal = p.withStoredFlags := by
  have haccessors : p.accessors.normal p.name = p.accessors := by
    obtain ⟨hgetter, hsetter⟩ := h
    rw [Property.Fits, Property.methods] at hfits
    cases ha : p.accessors with
    | auto backing => rfl
    | explicit getter setter =>
      simp only [Property.getter?, Property.setter?, ha] at hgetter hsetter hfits
      simp only [Accessors.normal, Accessors.explicit.injEq, optionMap_eq_self_iff,
        Method.normalAs_eq_self_iff]
      constructor
      · intro m hm
        have hm' := hfits m (List.mem_append_left _ (Option.mem_toList.2 hm))
        exact ⟨(hgetter m hm).1, (hgetter m hm).2.isPlaced hm'⟩
      · intro m hm
        have hm' := hfits m (List.mem_append_right _ (Option.mem_toList.2 hm))
        exact ⟨(hsetter m hm).1, (hsetter m hm).2.isPlaced hm'⟩
  rw [Property.normal, haccessors, withStoredFlags]

theorem ObjectType.IsResolved.normal_eq {generation : Generation} {t : ObjectType}
    (h : t.IsResolved generation) (hfits : t.Fits generation) :
    t.normal generation = t.withStoredFlags := by
  have hfields : t.fields.map (Field.normal generation) = t.fields :=
    map_eq_self_iff.2 fun f hf => Field.normal_eq_self_iff.2 (h.fields f hf)
  have hproperties : t.properties.map Property.normal = t.properties.map Property.withStoredFlags :=
    List.map_congr_left fun p hp => (h.properties p hp).normal_eq (hfits.properties.2 p hp)
  have hstates : t.states.map State.normal = t.states := by
    refine map_eq_self_iff.2 fun s hs => State.normal_eq_self_iff.2 fun m hm => ?_
    exact (h.methods m (List.mem_flatMap.2 ⟨s, hs, hm⟩)).isPlaced ((hfits.states.2 s hs).each m hm)
  rw [ObjectType.normal, ite_later_eq_iff.2 h.flags, ite_later_eq_iff.2 h.structs, hfields,
    hproperties, hstates, withStoredFlags]

namespace Lowering

open Source

theorem Emitted.isResolved_placed {i : Instr} {j : Instruction} (h : Emitted i j)
    {land : UInt32 → Nat} {length : Nat} (hland : ∀ offset, land offset ≤ length) (owner : String)
    (k : Nat) : (placed owner land k j).IsResolved length k := by
  cases h with
  | plain hplain =>
    have htarget : (placed owner land k j).target = none := by
      rw [placed, Instruction.withDelta_target, hplain.target]
    rw [Instruction.IsResolved, placed_opcode, hplain.opcode]
    exact htarget
  | jump hcode htarget => exact ⟨_, hland _, rfl, rfl⟩
  | jumpIf expected condition hcode htarget => cases expected <;> exact ⟨_, hland _, rfl, rfl⟩

theorem landingOf_le (segments : List Segment) (offset : UInt32) :
    landingOf segments offset ≤ (segments.flatMap Segment.instructions).length := by
  rw [landingOf_eq]
  exact (frontOf_isPrefix _ _).length_le

theorem lowerMethod_isResolved {setting : Setting} {m : MethodDecl} {result : LoweredMethod}
    (h : lowerMethod setting m = .ok result) : result.method.IsResolved := by
  rw [lowerMethod] at h
  split at h
  · cases h
    exact .of_empty rfl rfl
  obtain ⟨segments, t, hrun, hresult⟩ := lowerCode_ok h
  cases hresult
  have hserves : List.Forall₂ Segment.Serves m.body segments :=
    Lower.visitAll_serves (Lower.awaits_start m _) hrun
  refine ⟨rfl, fun k i hi => ?_⟩
  obtain ⟨j, _, ⟨_, _, hemitted⟩, rfl⟩ := exists_assembled hserves hi
  rw [length_assemble]
  refine ⟨hemitted.isResolved_placed (landingOf_le segments) _ k, ?_, ?_⟩
  · rw [placed, Instruction.withDelta_offset]
  · rw [placed, Instruction.withDelta_method]
    rfl

theorem StemsFrom.isResolved {options : Options} {program : Source.Module} {t : TypeDecl}
    {m : Method} (h : StemsFrom options program t m) : m.IsResolved := by
  obtain hstub | ⟨d, _, result, hlower, rfl⟩ := h
  · exact .of_empty hstub.owner hstub.code
  · exact lowerMethod_isResolved hlower

theorem lowerType_isResolved {options : Options} {program : Source.Module} {t : TypeDecl}
    {result : LoweredType} (h : lowerType options program t = .ok result) :
    result.definition.IsResolved options.generation ∧
      (options.generation.isLater = false → result.structs = []) := by
  obtain ⟨hmethods, hproperties⟩ := lowerType_madeOf h
  obtain ⟨lowered, _, hpure⟩ := except_bind_ok h
  cases hpure
  have hstructs (hlater : options.generation.isLater = false) :
      (declareType options t).structs = [] := if_neg (Bool.eq_false_iff.1 hlater)
  have hfields : ∀ f ∈ (declareType options t).fields, f.IsNormal options.generation := by
    simp only [declareType, declareFields, List.forall_mem_map]
    exact fun f _ => ⟨fun _ => rfl, rfl⟩
  obtain ⟨_, _, hplaced⟩ := placeMethods_eq (declareType options t) lowered.1
  constructor
  · exact {
      flags := fun _ => congrArg ObjectType.flags hplaced
      structs := fun hlater => (congrArg ObjectType.structs hplaced).trans (hstructs hlater)
      fields := fun f hf => hfields f (congrArg ObjectType.fields hplaced ▸ hf)
      properties := fun p hp => (hproperties p hp).isResolved fun _ => StemsFrom.isResolved
      methods := fun m hm => (hmethods m hm).isResolved }
  · exact fun hlater => congrArg (List.map _) (hstructs hlater)

theorem lowerTypes_isResolved {options : Options} {program : Source.Module}
    {types : List TypeDecl} {result : List LoweredType}
    (h : lowerTypes options program types = .ok result) :
    ∀ t ∈ result, t.definition.IsResolved options.generation ∧
      (options.generation.isLater = false → t.structs = []) := by
  intro lowered hlowered
  obtain ⟨t, _, hlower⟩ := lowerTypes_origin h lowered hlowered
  exact lowerType_isResolved hlower

/-- The normal form of a lowered program that keeps the limits of a container. -/
theorem lowerProgram_normal {options : Options} {time : UInt64} {program : Source.Module}
    {result : LoweredProgram} (h : lowerProgram options time program = .ok result)
    (hfits : result.assembly.Fits) :
    result.assembly.normal = result.assembly.withStoredFlags := by
  obtain ⟨types, hlowered, hpure⟩ := except_bind_ok h
  cases hpure
  have hresolved := lowerTypes_isResolved hlowered
  have htypes : (types.map LoweredType.definition).map (ObjectType.normal options.generation) =
      (types.map LoweredType.definition).map ObjectType.withStoredFlags := by
    refine List.map_congr_left fun t ht => ?_
    obtain ⟨lowered, hmem, rfl⟩ := List.mem_map.1 ht
    exact (hresolved lowered hmem).1.normal_eq (hfits.types.2 _ ht)
  have hdebug : (debugOf time types).normal options.generation = debugOf time types := by
    refine DebugInfo.normal_eq_self_iff.2 fun hlater => ⟨rfl, ?_⟩
    exact List.flatMap_eq_nil_iff.2 fun t ht => (hresolved t ht).2 hlater
  simp only [Assembly.normal, Assembly.withStoredFlags, htypes]
  cases options.debugInfo with
  | false => rfl
  | true => simp only [if_true, Option.map_some, hdebug]

theorem lowerProgram_header {options : Options} {time : UInt64} {program : Source.Module}
    {result : LoweredProgram} (h : lowerProgram options time program = .ok result) :
    result.assembly.generation = options.generation ∧
      result.assembly.header.identifier = magic := by
  obtain ⟨types, _, hpure⟩ := except_bind_ok h
  cases hpure
  exact ⟨rfl, rfl⟩

/-- A lowered program is read back from its container with nothing changed but the flags of its
properties, and with nothing changed at all just when these agree with the accessors. -/
theorem decode_encode_lowered (options : Options) (time : UInt64) (program : Source.Module)
    (result : LoweredProgram) (bytes : List UInt8) (decoding : Container.DecodeOptions)
    (hlower : lowerProgram options time program = .ok result)
    (hcalls : ∀ m ∈ result.assembly.methods, ∀ i ∈ m.body.instructions,
      i.variadic.length < 2 ^ 31)
    (hexpected : decoding.expected = none ∨ decoding.expected = some options.generation)
    (hencode : Container.encode result.assembly = .ok bytes) :
    Container.decode decoding bytes = .ok result.assembly.withStoredFlags ∧
      (Container.decode decoding bytes = .ok result.assembly ↔
        ∀ t ∈ result.assembly.types, ∀ p ∈ t.properties, p.flags = p.storedFlags) := by
  obtain ⟨hgeneration, hmagic⟩ := lowerProgram_header hlower
  have hfits : result.assembly.Fits := by
    obtain ⟨h, _⟩ | ⟨_, fault, herror, _⟩ := Container.encode_cases result.assembly
    · exact h.fits
    · rw [hencode] at herror
      cases herror
  have hdecode : Container.decode decoding bytes = .ok result.assembly.withStoredFlags := by
    rw [← lowerProgram_normal hlower hfits]
    rw [← hgeneration] at hexpected
    exact Container.decode_of_encode hmagic hcalls hexpected hencode
  refine ⟨hdecode, ?_⟩
  rw [hdecode, Except.ok.injEq]
  exact Assembly.withStoredFlags_eq_self_iff

def gauge (others : List MethodDecl) : Source.Module :=
  { name := "Gauges"
    types := [
      { name := "Gauge"
        properties := [{ name := "Level", type := .int32, setter := none }]
        methods := others ++ [
          { name := "get_Level"
            returns := .int32
            body := [
              { offset := 0, code := .ldcI4, operand := .int 1 },
              { offset := 1, code := .brtrue, operand := .target 5 },
              { offset := 3, code := .ldcI4, operand := .int 0 },
              { offset := 4, code := .ret },
              { offset := 5, code := .ldcI4, operand := .int 7 },
              { offset := 6, code := .ret }] }] }] }

def undeclaredSetter : MethodDecl :=
  { name := "set_Level", parameters := [{ name := "value", type := .int32 }]
    body := [{ code := .ret }] }

theorem exists_gauge {others : List MethodDecl} {agree : Bool}
    (h : ((lowerProgram { policy := .strict } 5 (gauge others)).toOption.map fun result =>
      (decide result.assembly.Encodable,
        decide (∀ m ∈ result.assembly.methods, ∀ i ∈ m.body.instructions,
          i.variadic.length < 2 ^ 31),
        decide (∀ t ∈ result.assembly.types, ∀ p ∈ t.properties, p.flags = p.storedFlags))) =
      some (true, true, agree)) :
    ∃ result bytes, lowerProgram { policy := .strict } 5 (gauge others) = .ok result ∧
      Container.encode result.assembly = .ok bytes ∧
      (∀ m ∈ result.assembly.methods, ∀ i ∈ m.body.instructions, i.variadic.length < 2 ^ 31) ∧
      ((∀ t ∈ result.assembly.types, ∀ p ∈ t.properties, p.flags = p.storedFlags) ↔
        agree = true) := by
  cases hlower : lowerProgram { policy := .strict } 5 (gauge others) with
  | error fault =>
    rw [hlower] at h
    cases h
  | ok result =>
    simp only [hlower, Except.toOption, Option.map_some, Option.some.injEq, Prod.mk.injEq,
      decide_eq_true_eq] at h
    obtain ⟨hencodable, hcalls, hagree⟩ := h
    obtain ⟨bytes, hencode⟩ := Container.encode_of_encodable hencodable
    exact ⟨result, bytes, rfl, hencode, hcalls, by rw [← hagree, decide_eq_true_eq]⟩

/-- A setter that is not declared makes the flags differ. -/
theorem decode_encode_lowered_gauge :
    (∃ result bytes, lowerProgram { policy := .strict } 5 (gauge []) = .ok result ∧
      Container.encode result.assembly = .ok bytes ∧
      Container.decode {} bytes = .ok result.assembly) ∧
    ∃ result bytes, lowerProgram { policy := .strict } 5 (gauge [undeclaredSetter]) = .ok result ∧
      Container.encode result.assembly = .ok bytes ∧
      Container.decode {} bytes = .ok result.assembly.withStoredFlags ∧
      Container.decode {} bytes ≠ .ok result.assembly := by
  constructor
  · obtain ⟨result, bytes, hlower, hencode, hcalls, hagree⟩ :=
      @exists_gauge [] true (by decide +kernel)
    have h := decode_encode_lowered _ _ _ result bytes {} hlower hcalls (.inl rfl) hencode
    exact ⟨result, bytes, hlower, hencode, h.2.2 (hagree.2 rfl)⟩
  · obtain ⟨result, bytes, hlower, hencode, hcalls, hagree⟩ :=
      @exists_gauge [undeclaredSetter] false (by decide +kernel)
    have h := decode_encode_lowered _ _ _ result bytes {} hlower hcalls (.inl rfl) hencode
    refine ⟨result, bytes, hlower, hencode, h.1, fun hsame => ?_⟩
    exact Bool.false_ne_true (hagree.1 (h.2.1 hsame))

end Lowering

end PapyrusBackend
