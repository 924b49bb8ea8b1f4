import Mathlib.Data.Finset.Card
import PapyrusBackend.Proofs.Container.Encodable

namespace PapyrusBackend

def Method.lengths (m : Method) : List Nat :=
  [m.parameters.length, m.body.variables.length, m.body.instructions.length]

def State.lengths (s : State) : List Nat := s.methods.length :: s.methods.flatMap Method.lengths

def ObjectType.lengths (generation : Generation) (t : ObjectType) : List Nat :=
  (if generation.isLater then
    t.structs.length :: t.structs.map fun s => s.fields.length
  else []) ++
    ([t.fields.length, t.properties.length, t.states.length] ++
      ((t.properties.flatMap Property.methods).flatMap Method.lengths ++
        t.states.flatMap State.lengths))

def DebugInfo.lengths (generation : Generation) (d : DebugInfo) : List Nat :=
  (d.methods.length :: d.methods.map fun m => m.lines.length) ++
    (if generation.isLater then
      (d.groups.length :: d.groups.map fun g => g.properties.length) ++
        (d.structs.length :: d.structs.map fun s => s.fields.length)
    else [])

def Assembly.lengths (a : Assembly) : List Nat :=
  a.debug.toList.flatMap (DebugInfo.lengths a.generation) ++
    (a.userFlags.length :: a.types.length :: a.types.flatMap (ObjectType.lengths a.generation))

theorem countable_iff {xs : List α} : Countable xs ↔ xs.length ≤ 65535 := Nat.lt_succ_iff

theorem writable_iff {s : String} : Writable s ↔ s.utf8ByteSize ≤ 65535 := by
  rw [Writable, Nat.lt_succ_iff]
  rfl

theorem Method.fits_iff_lengths (m : Method) :
    m.Fits ↔ (∀ n ∈ m.lengths, n ≤ 65535) ∧
      ∀ i ∈ m.body.instructions, i.hasValidArity = true := by
  simp [Method.fits_iff, Method.lengths, countable_iff, Instruction.Fits, and_assoc]

theorem State.fits_iff_lengths (s : State) :
    s.Fits ↔ (∀ n ∈ s.lengths, n ≤ 65535) ∧
      ∀ m ∈ s.methods, ∀ i ∈ m.body.instructions, i.hasValidArity = true := by
  simp only [State.fits_iff, State.lengths, countable_iff, Method.fits_iff_lengths, forall_and,
    List.forall_mem_cons, List.forall_mem_flatMap, and_assoc]

theorem ObjectType.fits_iff_lengths (generation : Generation) (t : ObjectType) :
    t.Fits generation ↔ (∀ n ∈ t.lengths generation, n ≤ 65535) ∧
      ∀ m ∈ t.methods ++ t.properties.flatMap Property.methods, ∀ i ∈ m.body.instructions,
        i.hasValidArity = true := by
  cases hlater : generation.isLater <;>
    simp only [ObjectType.fits_iff, ObjectType.lengths, ObjectType.methods, Property.Fits,
      Struct.Fits, countable_iff, hlater, State.fits_iff_lengths, Method.fits_iff_lengths,
      forall_and, List.forall_mem_append, List.forall_mem_cons, List.forall_mem_flatMap,
      List.forall_mem_map, List.not_mem_nil, Bool.false_eq_true, if_true, if_false, false_imp_iff,
      true_imp_iff, implies_true] <;>
    tauto

theorem DebugInfo.fits_iff_lengths (generation : Generation) (d : DebugInfo) :
    d.Fits generation ↔ ∀ n ∈ d.lengths generation, n ≤ 65535 := by
  cases hlater : generation.isLater <;>
    simp [DebugInfo.fits_iff, DebugInfo.lengths, MethodLines.Fits, PropertyGroup.Fits,
      StructOrder.Fits, countable_iff, hlater, or_imp, forall_and, and_assoc]

theorem Assembly.fits_iff_lengths (a : Assembly) :
    a.Fits ↔ (∀ n ∈ a.lengths, n ≤ 65535) ∧
      ∀ m ∈ a.methods, ∀ i ∈ m.body.instructions, i.hasValidArity = true := by
  simp only [Assembly.fits_iff, Assembly.lengths, Assembly.methods, countable_iff,
    DebugInfo.fits_iff_lengths, ObjectType.fits_iff_lengths, forall_and, List.forall_mem_append,
    List.forall_mem_cons, List.forall_mem_flatMap, Option.mem_toList, Option.mem_def, and_assoc]

/-- Each distinct text takes one place of the string table. -/
theorem length_extend_nil (texts : List String) :
    (extend [] texts).length = texts.toFinset.card := by
  have hmem : (extend [] texts).toFinset = texts.toFinset := by
    ext s
    simp [mem_extend]
  rw [← hmem, List.toFinset_card_of_nodup (nodup_extend List.nodup_nil texts)]

theorem Assembly.encodable_iff_lengths (a : Assembly) :
    a.Encodable ↔
      (∀ m ∈ a.methods, ∀ i ∈ m.body.instructions, i.hasValidArity = true) ∧
      (∀ n ∈ a.lengths, n ≤ 65535) ∧
      (∀ s ∈ [a.header.source, a.header.user, a.header.computer] ++ a.texts,
        s.utf8ByteSize ≤ 65535) ∧
      a.texts.toFinset.card ≤ 65535 := by
  rw [Assembly.encodable_iff, Assembly.fits_iff_lengths, Header.fits_iff, countable_iff,
    length_extend_nil]
  simp only [writable_iff, List.forall_mem_append, List.forall_mem_cons, List.not_mem_nil,
    false_imp_iff, implies_true, and_true]
  tauto

end PapyrusBackend

namespace PapyrusBackend.Container

theorem IsLimit.cases {fault : Fault} (h : IsLimit fault) :
    (∃ what count, fault = .tooMany what count) ∨
      ∃ mnemonic expected got, fault = .wrongArity mnemonic expected got := by
  cases fault with
  | tooMany what count => exact .inl ⟨what, count, rfl⟩
  | wrongArity mnemonic expected got => exact .inr ⟨mnemonic, expected, got, rfl⟩
  | _ => cases h

/-- An assembly has a container just when its instructions have the arguments that their opcodes ask
for and its lists, its texts and the table of its distinct texts are short enough. Otherwise the
fault is that one of them is not. -/
theorem encode_ok_iff (a : Assembly) :
    ((∃ bytes, encode a = .ok bytes) ↔
      (∀ m ∈ a.methods, ∀ i ∈ m.body.instructions, i.hasValidArity = true) ∧
      (∀ n ∈ a.lengths, n ≤ 65535) ∧
      (∀ s ∈ [a.header.source, a.header.user, a.header.computer] ++ a.texts,
        s.utf8ByteSize ≤ 65535) ∧
      a.texts.toFinset.card ≤ 65535) ∧
    ((∃ bytes, encode a = .ok bytes) ∨ (∃ what count, encode a = .error (.tooMany what count)) ∨
      ∃ mnemonic expected got, encode a = .error (.wrongArity mnemonic expected got)) := by
  rw [← Assembly.encodable_iff_lengths]
  obtain ⟨hkept, hok⟩ | ⟨hnot, fault, hfault, hlimit⟩ := encode_cases a
  · exact ⟨iff_of_true hok hkept, .inl hok⟩
  · have hfails : ¬∃ bytes, encode a = .ok bytes := by
      rintro ⟨bytes, hok⟩
      cases hfault.symm.trans hok
    refine ⟨iff_of_false hfails hnot, .inr ?_⟩
    obtain ⟨what, count, rfl⟩ | ⟨mnemonic, expected, got, rfl⟩ := hlimit.cases
    · exact .inl ⟨what, count, hfault⟩
    · exact .inr ⟨mnemonic, expected, got, hfault⟩

end PapyrusBackend.Container
