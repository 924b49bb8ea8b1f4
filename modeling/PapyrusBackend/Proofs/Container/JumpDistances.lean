import PapyrusBackend.Proofs.Body.Editing
import PapyrusBackend.Proofs.Container.Reencoding
import PapyrusBackend.Proofs.Lowering.ResolvedProgram

namespace PapyrusBackend

theorem Instruction.setArgument_of_getElem? {k : Nat} {value : Value} {arguments : List Value}
    (h : arguments[k]? = some value) : setArgument k value arguments = arguments := by
  obtain ⟨hk, hvalue⟩ := List.getElem?_eq_some_iff.mp h
  have henough : k + 1 - arguments.length = 0 := by omega
  rw [setArgument, henough, List.replicate_zero, List.append_nil, ← hvalue, List.set_getElem_self]

theorem Instruction.withDelta_idem (i : Instruction) : i.withDelta.withDelta = i.withDelta := by
  cases h : i.distance? with
  | none => rw [withDelta_of_distance?_eq_none h, withDelta_of_distance?_eq_none h]
  | some n =>
    obtain ⟨t, ht, hn, hwritten⟩ := exists_withDelta h
    rw [hwritten]
    simp only [withDelta, ht, hn, setArgument_setArgument]

theorem Instruction.at_offset {i : Instruction} {k : Nat} (h : i.offset = k) :
    { i with offset := k } = i := by rw [← h]

theorem Body.renumber_renumber (b : Body) : b.renumber.renumber = b.renumber := by
  have hcode : b.renumber.renumber.instructions = b.renumber.instructions := by
    apply List.ext_getElem?
    intro k
    rw [getElem?_renumber, getElem?_renumber, Option.map_map]
    congr 1
    funext i
    rw [Function.comp_apply, Instruction.at_offset (Instruction.withDelta_offset _),
      Instruction.withDelta_idem]
  exact congrArg (fun code => { b with instructions := code }) hcode

theorem Instruction.landing_eq_position {length k t : Nat} {i : Instruction}
    (h : i.landing length k = some (.position t)) :
    ∃ n, i.opcode.jumpArgument? = some n ∧
      i.arguments[n]? = some (.int (Int32.ofInt ((t : Int) - k))) := by
  rw [landing] at h
  cases hn : i.opcode.jumpArgument? with
  | none =>
    rw [hn] at h
    cases h
  | some n =>
    simp only [hn] at h
    split at h
    · next d hd =>
      split at h
      · next hinside =>
        have ht : ((t : Int)) = k + d.toInt := by
          cases h
          exact Int.toNat_of_nonneg hinside.1
        have hdistance : (t : Int) - k = d.toInt := by omega
        exact ⟨n, rfl, by rw [hd, hdistance, Int32.ofInt_toInt]⟩
      · cases h
    · cases h

/-- No instruction is read with a target in managed code. -/
theorem Instruction.landing_ne_source (length k : Nat) (i : Instruction) (offset : UInt32) :
    i.landing length k ≠ some (.source offset) := by
  intro h
  rw [landing] at h
  split at h
  · cases h
  · split at h
    · split at h <;> cases h
    · cases h

/-- Where a jump leads because of its distance, its distance stays as it is. -/
theorem Instruction.withDelta_of_landing {length k : Nat} {i : Instruction}
    (htarget : i.target = i.landing length k) (hoffset : i.offset = k) : i.withDelta = i := by
  cases hlanding : i.landing length k with
  | none =>
    apply withDelta_of_distance?_eq_none
    rw [distance?, htarget, hlanding]
  | some target =>
    cases target with
    | source offset => exact absurd hlanding (landing_ne_source length k i offset)
    | position t =>
      obtain ⟨n, hn, hargument⟩ := landing_eq_position hlanding
      have hposition : i.target = some (.position t) := htarget.trans hlanding
      have hdistance : i.distance? = some n := by rw [distance?, hposition, hn]
      obtain ⟨t', ht', -, hwritten⟩ := exists_withDelta hdistance
      rw [hposition] at ht'
      cases ht'
      rw [← hoffset] at hargument
      rw [hwritten, setArgument_of_getElem? hargument]

theorem Method.IsPlaced.renumber_eq {m : Method} (h : m.IsPlaced) : m.body.renumber = m.body := by
  have hcode : m.body.renumber.instructions = m.body.instructions := by
    apply List.ext_getElem?
    intro k
    rw [Body.getElem?_renumber]
    cases hi : m.body.instructions[k]? with
    | none => rfl
    | some i =>
      obtain ⟨htarget, hoffset, -⟩ := h.code k i hi
      rw [Option.map_some, Instruction.at_offset hoffset,
        Instruction.withDelta_of_landing htarget hoffset]
  exact congrArg (fun code => { m.body with instructions := code }) hcode

/-- Every jump leads to a position of the body or to its end, and nothing else leads anywhere. -/
def Body.Directed (b : Body) : Prop :=
  ∀ i ∈ b.instructions,
    if i.opcode.isJump then ∃ t ≤ b.length, i.target = some (.position t) else i.target = none

instance (b : Body) : Decidable b.Directed :=
  inferInstanceAs (Decidable (∀ i ∈ b.instructions, if i.opcode.isJump then
    ∃ t ≤ b.length, i.target = some (.position t) else i.target = none))

theorem Body.Directed.isResolved {b : Body} (h : b.Directed) {k : Nat} {i : Instruction}
    (hi : b.renumber.instructions[k]? = some i) :
    i.IsResolved b.length k := by
  rw [getElem?_renumber] at hi
  obtain ⟨j, hj, rfl⟩ := Option.map_eq_some_iff.mp hi
  have hdirected := h j (List.mem_of_getElem? hj)
  rw [Instruction.IsResolved, Instruction.withDelta_opcode, Instruction.withDelta_target]
  cases hn : j.opcode.jumpArgument? with
  | none =>
    rw [Opcode.isJump, hn] at hdirected
    exact hdirected
  | some n =>
    rw [Opcode.isJump, hn] at hdirected
    obtain ⟨t, ht, htarget⟩ := hdirected
    exact ⟨t, ht, htarget, Instruction.getElem?_withDelta_arguments hn htarget⟩

/-- What is read of a numbered body is that body, in the name of the method it is read for. -/
theorem Body.Directed.normal_renumber {b : Body} (h : b.Directed) (hlength : b.length < 2 ^ 31)
    (name : String) : b.renumber.normal name = b.renumber.rename name := by
  have hcode : (b.renumber.normal name).instructions = (b.renumber.rename name).instructions := by
    apply List.ext_getElem?
    intro k
    rw [Body.normal, Body.rename, List.getElem?_mapIdx, List.getElem?_map]
    cases hi : b.renumber.instructions[k]? with
    | none => rfl
    | some i =>
      have hk : k < b.length := b.length_renumber ▸ (List.getElem?_eq_some_iff.mp hi).1
      have hlanding := (h.isResolved hi).landing_eq hk hlength
      have hoffset : i.offset = k := b.renumber_numbered.offset hi
      have hcount : b.renumber.instructions.length = b.length := b.length_renumber
      rw [Option.map_some, Option.map_some, Instruction.placed, hcount, hlanding, ← hoffset]
  exact congrArg (fun code => { b.renumber with owner := name, instructions := code }) hcode

theorem Body.rename_instructions {b : Body} {name : String}
    (h : ∀ i ∈ b.instructions, i.method = name) :
    (b.rename name).instructions = b.instructions := by
  refine map_eq_self_iff.mpr fun i hi => ?_
  rw [← h i hi]

theorem Body.renumber_method {b : Body} {name : String}
    (h : ∀ i ∈ b.instructions, i.method = name) :
    ∀ i ∈ b.renumber.instructions, i.method = name := by
  intro i hi
  obtain ⟨k, hk⟩ := List.getElem?_of_mem hi
  rw [getElem?_renumber] at hk
  obtain ⟨j, hj, rfl⟩ := Option.map_eq_some_iff.mp hk
  rw [Instruction.withDelta_method]
  exact h j (List.mem_of_getElem? hj)

def Property.slots (p : Property) : List (String × Method) :=
  p.getter?.toList.map (fun m => (getterName p.name, m)) ++
    p.setter?.toList.map (fun m => (setterName p.name, m))

def ObjectType.slots (t : ObjectType) : List (String × Method) :=
  t.methods.map (fun m => (m.name, m)) ++ t.properties.flatMap Property.slots

/-- All methods, each with the name under which it is read back. -/
def Assembly.slots (a : Assembly) : List (String × Method) := a.types.flatMap ObjectType.slots

theorem Property.methods_normal (p : Property) :
    p.normal.methods = p.slots.map fun s => s.2.normalAs s.1 := by
  cases ha : p.accessors with
  | auto backing =>
    simp [Property.normal, Property.methods, slots, getter?, setter?, Accessors.normal, ha]
  | explicit getter setter =>
    simp [Property.normal, Property.methods, slots, getter?, setter?, Accessors.normal, ha,
      Function.comp_def, Option.toList_map]

theorem ObjectType.methods_normal (generation : Generation) (t : ObjectType) :
    (t.normal generation).methods ++ (t.normal generation).properties.flatMap Property.methods =
      t.slots.map fun s => s.2.normalAs s.1 := by
  have hnormal : Method.normal = fun m => m.normalAs m.name := rfl
  simp only [ObjectType.normal, ObjectType.methods, slots, State.normal, hnormal, List.flatMap_map,
    List.map_append, List.map_flatMap, List.map_map, Property.methods_normal, Function.comp_def]

theorem Assembly.methods_normal (a : Assembly) :
    a.normal.methods = a.slots.map fun s => s.2.normalAs s.1 := by
  simp only [Assembly.normal, Assembly.methods, slots, List.flatMap_map, List.map_flatMap,
    ObjectType.methods_normal]

theorem Assembly.map_slots (a : Assembly) : a.slots.map Prod.snd = a.methods := by
  have hproperty (p : Property) : p.slots.map Prod.snd = p.methods := by
    simp [Property.slots, Property.methods, Function.comp_def]
  simp [slots, ObjectType.slots, Assembly.methods, List.map_flatMap, hproperty, Function.comp_def]

namespace Container

theorem decode_isPlaced {options : DecodeOptions} {data : List UInt8} {a : Assembly}
    (h : decode options data = .ok a) : ∀ m ∈ a.methods, m.IsPlaced := by
  obtain ⟨s', -, hrun⟩ := decode_ok h
  obtain ⟨-, -, hnormal, -⟩ := assembly_ok hrun
  intro m hm
  obtain ⟨t, ht, hm⟩ := List.mem_flatMap.mp hm
  obtain hm | hm := List.mem_append.mp hm
  · exact (hnormal.types t ht).methods m hm
  · obtain ⟨p, hp, hm⟩ := List.mem_flatMap.mp hm
    have hproperty := (hnormal.types t ht).properties p hp
    obtain hm | hm := List.mem_append.mp hm
    · exact (hproperty.getter m (Option.mem_toList.mp hm)).2
    · exact (hproperty.setter m (Option.mem_toList.mp hm)).2

/-- The code of every method of a container that was written can be counted. -/
theorem encode_methods_fit {a : Assembly} {bytes : List UInt8} (h : encode a = .ok bytes) :
    ∀ m ∈ a.methods, m.Fits := by
  obtain ⟨hencodable, -⟩ | ⟨-, fault, hfault, -⟩ := encode_cases a
  · intro m hm
    obtain ⟨t, ht, hm⟩ := List.mem_flatMap.mp hm
    have hfits := hencodable.fits.types.2 t ht
    obtain hm | hm := List.mem_append.mp hm
    · obtain ⟨s, hs, hm⟩ := List.mem_flatMap.mp hm
      exact (hfits.states.2 s hs).each m hm
    · obtain ⟨p, hp, hm⟩ := List.mem_flatMap.mp hm
      exact hfits.properties.2 p hp m hm
  · rw [h] at hfault
    cases hfault

/-- A numbered body comes back from a container as it is, in the name that its method has there. -/
theorem decode_numbered {a : Assembly} {bytes : List UInt8} {options : DecodeOptions}
    (hmagic : a.header.identifier = magic) (hcalls : ∀ m ∈ a.methods, CallsFit m)
    (hexpected : options.expected = none ∨ options.expected = some a.generation)
    (hencode : encode a = .ok bytes) :
    ∃ decoded, decode options bytes = .ok decoded ∧
      ∀ (k : Nat) (name : String) (m : Method) (b : Body), a.slots[k]? = some (name, m) →
        m.body = b.renumber → b.Directed →
        ∃ m', decoded.methods[k]? = some m' ∧ m'.name = name ∧
          m'.body = b.renumber.rename name := by
  refine ⟨a.normal, decode_of_encode hmagic hcalls hexpected hencode, ?_⟩
  intro k name m b hslot hbody hdirected
  refine ⟨m.normalAs name, ?_, rfl, ?_⟩
  · rw [Assembly.methods_normal, List.getElem?_map, hslot]
    rfl
  · have hm : m ∈ a.methods := by
      rw [← Assembly.map_slots]
      exact List.mem_map_of_mem (List.mem_of_getElem? hslot)
    have hcount := (encode_methods_fit hencode m hm).instructions
    rw [hbody] at hcount
    have hlength : b.length < 2 ^ 31 := by
      rw [← b.length_renumber]
      exact Nat.lt_trans hcount (by decide)
    rw [Method.normalAs, hbody]
    exact hdirected.normal_renumber hlength name

/-- Numbering and reading undo each other. Numbering a second time changes nothing, nor does
numbering what was read from any data; and a numbered body whose jumps stay in it is read back as it
was written, each instruction in the name of its method. -/
theorem renumber_decode_inverse :
    (∀ b : Body, b.renumber.renumber = b.renumber) ∧
    (∀ (options : DecodeOptions) (data : List UInt8) (a : Assembly),
      decode options data = .ok a → ∀ m ∈ a.methods, m.body.renumber = m.body) ∧
    ∀ (a : Assembly) (bytes : List UInt8) (options : DecodeOptions),
      a.header.identifier = magic →
      (∀ m ∈ a.methods, ∀ i ∈ m.body.instructions, i.variadic.length < 2 ^ 31) →
      options.expected = none ∨ options.expected = some a.generation →
      encode a = .ok bytes →
      ∃ decoded, decode options bytes = .ok decoded ∧
        ∀ (k : Nat) (name : String) (m : Method) (b : Body), a.slots[k]? = some (name, m) →
          m.body = b.renumber → b.Directed →
          ∃ m', decoded.methods[k]? = some m' ∧ m'.name = name ∧
            m'.body = b.renumber.rename name ∧
            ((∀ i ∈ b.instructions, i.method = name) →
              m'.body.instructions = b.renumber.instructions) := by
  refine ⟨Body.renumber_renumber, fun options data a hdecode m hm =>
    (decode_isPlaced hdecode m hm).renumber_eq, ?_⟩
  intro a bytes options hmagic hcalls hexpected hencode
  obtain ⟨decoded, hdecode, hmethods⟩ := decode_numbered hmagic hcalls hexpected hencode
  refine ⟨decoded, hdecode, fun k name m b hslot hbody hdirected => ?_⟩
  obtain ⟨m', hm', hname, hbody'⟩ := hmethods k name m b hslot hbody hdirected
  refine ⟨m', hm', hname, hbody', fun hstamped => ?_⟩
  rw [hbody', Body.rename_instructions (Body.renumber_method hstamped)]

def loopBody : Body :=
  ({ owner := "Count" } : Body).append
    [{ opcode := .cmpLt, arguments := [.reference "::temp0", .reference "n", .int 1] },
      .jumpIf true (.reference "::temp0") (some (.position 4)),
      { opcode := .isub, arguments := [.reference "n", .reference "n", .int 1] },
      .jump (some (.position 0))]

def loopAssembly (identifier : UInt32) : Assembly where
  generation := .fallout4
  header := { Header.make .fallout4 "L.psc" 5 with identifier }
  types := [{ name := "L"
              states := [{ name := ""
                           methods := [{ name := "Count", returns := "None"
                                         body := loopBody.renumber }] }] }]

theorem loopAssembly_encodable (identifier : UInt32) : (loopAssembly identifier).Encodable := by
  have h : (loopAssembly 0).Encodable := by decide
  exact ⟨⟨h.fits.debug, h.fits.userFlags, h.fits.types⟩, ⟨h.header.source, h.header.user,
    h.header.computer⟩, h.table, h.texts⟩

theorem renumber_decode_inverse_loop :
    loopBody.renumber.renumber = loopBody.renumber ∧ loopBody.Directed ∧
      ∃ bytes decoded m', encode (loopAssembly magic) = .ok bytes ∧
        decode { policy := .strict } bytes = .ok decoded ∧
        decoded.methods[0]? = some m' ∧ m'.body.instructions = loopBody.renumber.instructions ∧
        m'.body.renumber = m'.body := by
  have hdirected : loopBody.Directed := by decide
  obtain ⟨bytes, hencode⟩ := encode_of_encodable (loopAssembly_encodable magic)
  obtain ⟨decoded, hdecode, hmethods⟩ := renumber_decode_inverse.2.2 (loopAssembly magic) bytes
    { policy := .strict } rfl (by decide) (.inl rfl) hencode
  obtain ⟨m', hm', -, -, hcode⟩ := hmethods 0 "Count" _ loopBody rfl rfl hdirected
  exact ⟨renumber_decode_inverse.1 loopBody, hdirected, bytes, decoded, m', hencode, hdecode, hm',
    hcode (by decide), renumber_decode_inverse.2.1 _ bytes decoded hdecode m'
      (List.mem_of_getElem? hm')⟩

/-- The number in the header is written as it is. -/
theorem encode_identifier {a : Assembly} {bytes : List UInt8} (h : encode a = .ok bytes) :
    a.header.identifier = UInt32.ofNat (ofBytes a.generation.order (bytes.take 4)) := by
  obtain ⟨body, front, strings, -, rfl, hheader, -⟩ := encode_front h
  have hrun := hheader { rest := front ++ (strings ++ body.bytes.toList)
                         order := a.generation.order } _ rfl rfl rfl
  exact (header_identifier hrun).2

/-- A container that starts with a number of its own is written, and no reader takes it. -/
theorem foreign_identifier_not_read :
    ¬ ∀ (a : Assembly) (bytes : List UInt8) (k : Nat) (name : String) (m : Method) (b : Body),
      a.slots[k]? = some (name, m) → m.body = b.renumber → b.Directed →
      (∀ i ∈ b.instructions, i.hasValidArity = true ∧ i.method = name) →
      (∀ m ∈ a.methods, ∀ i ∈ m.body.instructions, i.variadic.length < 2 ^ 31) →
      encode a = .ok bytes →
      ∃ options decoded m', decode options bytes = .ok decoded ∧
        decoded.methods[k]? = some m' ∧ m'.body.instructions = b.renumber.instructions := by
  intro h
  have hcalls : ∀ m ∈ (loopAssembly 0).methods, ∀ i ∈ m.body.instructions,
      i.variadic.length < 2 ^ 31 := by decide
  obtain ⟨bytes, hencode⟩ := encode_of_encodable (loopAssembly_encodable 0)
  obtain ⟨options, decoded, -, hdecode, -⟩ := h (loopAssembly 0) bytes 0 "Count" _ loopBody rfl rfl
    (by decide) (by decide) hcalls hencode
  obtain ⟨-, hdetect, -⟩ := decode_ok hdecode
  have hidentifier := encode_identifier hencode
  rw [take_of_detect hdetect] at hidentifier
  revert hidentifier
  cases decoded.generation <;> decide

end Container

end PapyrusBackend
