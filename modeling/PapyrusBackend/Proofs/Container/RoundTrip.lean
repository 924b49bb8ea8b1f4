import PapyrusBackend.Proofs.Container.CarriedContent
import PapyrusBackend.Proofs.Container.Encodable
import PapyrusBackend.Proofs.Container.Magic

namespace PapyrusBackend.Container

/-- The parts of a container are read one after the other, and what follows is not looked at. -/
theorem assembly_run {generation : Generation} {order : ByteOrder} {header : Header}
    {debug : Option DebugInfo} {userFlags : List UserFlag} {types : List ObjectType}
    {front strings content : List UInt8} {texts : List String}
    (hheader : Takes Read.header order [] front header)
    (hstrings : Takes Read.stringTable order [] strings (StringTable.ofList texts))
    (hcontent : Takes (Read.content generation) order texts content (debug, userFlags, types))
    (policy : Policy) (rest : List UInt8) :
    ∃ s, s.rest = rest ∧ Read.assembly generation
      { rest := front ++ (strings ++ (content ++ rest)), order, policy } =
      .ok { generation, header, debug, userFlags, types } s := by
  have h₁ := hheader { rest := front ++ (strings ++ (content ++ rest)), order, policy }
    (strings ++ (content ++ rest)) rfl rfl rfl
  have h₂ := hstrings
    { rest := strings ++ (content ++ rest), order, position := 0 + front.length, policy }
    (content ++ rest) rfl rfl rfl
  have h₃ := hcontent
    { rest := content ++ rest, order, position := 0 + front.length + strings.length, policy
      table := .ofList texts } rest rfl (StringTable.toList_ofList texts) rfl
  refine ⟨{ rest, order, policy, table := .ofList texts
            position := 0 + front.length + strings.length + content.length }, rfl, ?_⟩
  rw [Read.assembly_eq, bind_run h₁, bind_run h₂]
  exact bind_run h₃

theorem detect_of_header {generation : Generation} {front : List UInt8} {header : Header}
    (hheader : Takes Read.header generation.order [] front header)
    (hmagic : header.identifier = magic) (rest : List UInt8) : detect (front ++ rest) = .ok generation := by
  have hrun := hheader { rest := front ++ rest, order := generation.order } rest rfl rfl rfl
  obtain ⟨hlength, hidentifier⟩ := header_identifier hrun
  have htake := List.length_take_of_le hlength
  rw [hmagic] at hidentifier
  apply detect_eq
  rw [hidentifier, UInt32.toNat_ofNat_of_lt' (ofBytes_lt _ htake)]
  exact (toBytes_ofBytes _ htake).symm

theorem checkGeneration_ok {expected : Option Generation} {generation : Generation}
    (h : expected = none ∨ expected = some generation) :
    checkGeneration expected generation = .ok () := by
  obtain rfl | rfl := h
  · rfl
  · exact if_pos rfl

def outcome : EStateM.Result Fault Reader Assembly → Except Fault Assembly
  | .ok a _ => .ok a
  | .error fault _ => .error fault

theorem decode_eq {options : DecodeOptions} {data : List UInt8} {generation : Generation}
    (hdetect : detect data = .ok generation)
    (hcheck : checkGeneration options.expected generation = .ok ()) :
    decode options data = outcome (Read.assembly generation
      { rest := data, order := generation.order, policy := options.policy }) := by
  simp only [decode, hdetect, bind, Except.bind, hcheck]
  split <;> next hrun => rw [hrun]; rfl

/-- A container is known by its first bytes and read to its last, whatever follows. -/
theorem encode_read {a : Assembly} {bytes : List UInt8} (hmagic : a.header.identifier = magic)
    (hcalls : ∀ m ∈ a.methods, CallsFit m) (hencode : encode a = .ok bytes) (policy : Policy)
    (more : List UInt8) :
    detect (bytes ++ more) = .ok a.generation ∧ ∃ s, s.rest = more ∧
      Read.assembly a.generation { rest := bytes ++ more, order := a.generation.order, policy } =
        .ok a.normal s := by
  obtain ⟨front, strings, content, texts, rfl, hheader, hstrings, hcontent⟩ :=
    encode_takes hcalls hencode
  rw [List.append_assoc, List.append_assoc]
  exact ⟨detect_of_header hheader hmagic _, assembly_run hheader hstrings hcontent policy more⟩

/-- A container is read back as the normal form of its assembly, and what follows it is not looked
at. -/
theorem decode_append {a : Assembly} {bytes : List UInt8} {options : DecodeOptions}
    (hmagic : a.header.identifier = magic) (hcalls : ∀ m ∈ a.methods, CallsFit m)
    (hexpected : options.expected = none ∨ options.expected = some a.generation)
    (hencode : encode a = .ok bytes) (more : List UInt8) :
    decode options (bytes ++ more) = .ok a.normal := by
  obtain ⟨hdetect, s, _, hread⟩ := encode_read hmagic hcalls hencode options.policy more
  rw [decode_eq hdetect (checkGeneration_ok hexpected), hread]
  rfl

theorem decode_of_encode {a : Assembly} {bytes : List UInt8} {options : DecodeOptions}
    (hmagic : a.header.identifier = magic) (hcalls : ∀ m ∈ a.methods, CallsFit m)
    (hexpected : options.expected = none ∨ options.expected = some a.generation)
    (hencode : encode a = .ok bytes) : decode options bytes = .ok a.normal := by
  have h := decode_append hmagic hcalls hexpected hencode []
  rwa [List.append_nil] at h

/-- Decoding undoes encoding up to the normal form, under either policy. -/
theorem decode_encode (a : Assembly) (bytes : List UInt8) (options : DecodeOptions)
    (hmagic : a.header.identifier = magic)
    (hcalls : ∀ m ∈ a.methods, ∀ i ∈ m.body.instructions, i.variadic.length < 2 ^ 31)
    (hexpected : options.expected = none ∨ options.expected = some a.generation)
    (hencode : encode a = .ok bytes) :
    decode options bytes = .ok a.normal ∧ (decode options bytes = .ok a ↔ a.IsNormal) := by
  have hdecode := decode_of_encode hmagic hcalls hexpected hencode
  refine ⟨hdecode, ?_⟩
  rw [hdecode, Except.ok.injEq]
  exact Assembly.normal_eq_self_iff

/-- An assembly for the earlier generation that is far from its normal form: a struct that has no
room there, a getter under another name, flags without accessors, code that is not placed. -/
def looseAssembly : Assembly :=
  let call : Instruction :=
    { opcode := .callStatic
      arguments := [.reference "Game", .reference "Tick", .reference "::temp0"]
      variadic := [.int 7, .string "x"] }
  let jump : Instruction :=
    { opcode := .jmpt, arguments := [.reference "::temp0", .int (-1)], offset := 9 }
  let getter : Method :=
    { name := "other", returns := "Int", body := { owner := "", instructions := [call, jump] } }
  { generation := .skyrim
    header := .make .skyrim "A.psc" 5
    debug := some { groups := [⟨"A", "", "", 0, ["P"]⟩] }
    types := [{ name := "A"
                flags := 3
                structs := [{ name := "S" }]
                fields := [{ name := "f", type := "Int", flags := 1, documentation := "dropped" }]
                properties := [{ name := "P", type := "Int", flags := 0xFE
                                 accessors := .explicit (some getter) none }] }]
    corrupted := true }

theorem looseAssembly_encodable : looseAssembly.Encodable := by decide

theorem decode_encode_looseAssembly :
    ∃ bytes, encode looseAssembly = .ok bytes ∧
      decode { policy := .strict } bytes = .ok looseAssembly.normal ∧
      (decode { policy := .strict } bytes = .ok looseAssembly ↔ looseAssembly.IsNormal) := by
  obtain ⟨bytes, hencode⟩ := encode_of_encodable looseAssembly_encodable
  exact ⟨bytes, hencode, decode_encode looseAssembly bytes { policy := .strict } rfl (by decide)
    (.inl rfl) hencode⟩

end PapyrusBackend.Container
