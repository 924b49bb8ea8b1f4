import PapyrusBackend.Proofs.Container.Coupling
import PapyrusBackend.Proofs.Container.RoundTrip

namespace PapyrusBackend

def Fault.IsEndOfData (fault : Fault) : Prop :=
  ∃ offset needed available, fault = .endOfData offset needed available

namespace Container

theorem bytes_append {s : Reader} (more : List UInt8) {n : Nat} (h : n ≤ s.rest.length) :
    Read.bytes n { s with rest := s.rest ++ more } =
      .ok (s.rest.take n)
        { s with rest := s.rest.drop n ++ more, position := s.position + n } := by
  have htake : (s.rest ++ more).take n = s.rest.take n := List.take_append_of_le_length h
  have hdrop : (s.rest ++ more).drop n = s.rest.drop n ++ more := List.drop_append_of_le_length h
  simp only [Read.bytes, htake, hdrop, List.length_take_of_le h, if_true]

theorem length_take_ne {data : List UInt8} {n : Nat} (h : ¬n ≤ data.length) :
    (data.take n).length ≠ n := by
  rw [List.length_take]
  omega

def cutting (more : List UInt8) : Coupling where
  alike s t := t = { s with rest := s.rest ++ more }
  parting := Fault.IsEndOfData
  astray _ := True
  differ := by
    rintro s t rfl
    rfl
  withTable := by
    rintro s t rfl table
    rfl
  bytes := by
    rintro s t rfl n
    by_cases h : n ≤ s.rest.length
    · rw [bytes_append more h, Read.bytes, if_pos (List.length_take_of_le h)]
      exact .together _ rfl
    · rw [Read.bytes, if_neg (length_take_ne h)]
      exact .parted ⟨_, _, _, rfl⟩ fun _ _ _ => trivial
  resolve := by
    rintro s t rfl place
    simp only [Read.resolve]
    split
    · exact .together place rfl
    · split
      · exact .stopped _
      · exact .together _ rfl
  astray_withTable _ _ := trivial
  astray_bytes _ _ := trivial
  astray_resolve _ _ := trivial

/-- If all of the data is read to its end, then less of it is too little. -/
theorem assembly_cut {generation : Generation} {s t : Reader} {a : Assembly} {more : List UInt8}
    (hmore : more ≠ [])
    (hrun : Read.assembly generation { s with rest := s.rest ++ more } = .ok a t)
    (hrest : t.rest = []) :
    ∃ fault u, fault.IsEndOfData ∧ Read.assembly generation s = .error fault u := by
  have hfollows := (coupled_assembly (c := cutting more) generation).follows (s := s) rfl
  rw [hrun] at hfollows
  generalize hcut : Read.assembly generation s = result at hfollows
  cases hfollows with
  | together _ halike =>
    rw [halike] at hrest
    exact absurd (List.append_eq_nil_iff.1 hrest).2 hmore
  | parted hfault _ => exact ⟨_, _, hfault, rfl⟩

theorem detect_of_length_lt {data : List UInt8} (h : data.length < 4) :
    ∃ fault, Fault.IsEndOfData fault ∧ detect data = .error fault := by
  have htake : data.take 4 = data := List.take_of_length_le (Nat.le_of_lt h)
  have hne (order : ByteOrder) : data ≠ toBytes order 4 magic.toNat := by
    intro heq
    rw [heq, length_toBytes] at h
    exact Nat.lt_irrefl 4 h
  refine ⟨.endOfData 0 4 data.length, ⟨_, _, _, rfl⟩, ?_⟩
  simp only [detect, htake, if_neg (hne .big), if_neg (hne .little), if_pos h]

/-- A container tells where it ends: any shorter piece of it ends too early, and anything longer is
read as the container alone. -/
theorem decode_delimited (a : Assembly) (bytes : List UInt8) (options : DecodeOptions)
    (hmagic : a.header.identifier = magic)
    (hcalls : ∀ m ∈ a.methods, ∀ i ∈ m.body.instructions, i.variadic.length < 2 ^ 31)
    (hexpected : options.expected = none ∨ options.expected = some a.generation)
    (hencode : encode a = .ok bytes) :
    (∀ k < bytes.length, ∃ offset needed available,
      decode options (bytes.take k) = .error (.endOfData offset needed available)) ∧
    ∀ more, decode options (bytes ++ more) = decode options bytes := by
  constructor
  · intro k hk
    suffices h : ∃ fault, Fault.IsEndOfData fault ∧ decode options (bytes.take k) = .error fault by
      obtain ⟨fault, ⟨offset, needed, available, rfl⟩, hdecode⟩ := h
      exact ⟨offset, needed, available, hdecode⟩
    by_cases hshort : k < 4
    · have hlength : (bytes.take k).length < 4 :=
        Nat.lt_of_le_of_lt (List.length_take_le k bytes) hshort
      obtain ⟨fault, hfault, hdetect⟩ := detect_of_length_lt hlength
      refine ⟨fault, hfault, ?_⟩
      simp only [decode, hdetect]
      rfl
    · obtain ⟨hdetect, s, hrest, hrun⟩ := encode_read hmagic hcalls hencode options.policy []
      rw [List.append_nil] at hdetect hrun
      have hmore : bytes.drop k ≠ [] := fun h => absurd (List.drop_eq_nil_iff.1 h) (by omega)
      have hcut : detect (bytes.take k) = .ok a.generation := by
        apply detect_eq
        rw [List.take_take, Nat.min_eq_left (Nat.le_of_not_lt hshort)]
        exact take_of_detect hdetect
      rw [← List.take_append_drop k bytes] at hrun
      obtain ⟨fault, u, hfault, hstop⟩ := assembly_cut (s :=
        { rest := bytes.take k, order := a.generation.order, policy := options.policy }) hmore hrun
        hrest
      refine ⟨fault, hfault, ?_⟩
      rw [decode_eq hcut (checkGeneration_ok hexpected), hstop]
      rfl
  · intro more
    rw [decode_append hmagic hcalls hexpected hencode more,
      decode_of_encode hmagic hcalls hexpected hencode]

theorem decode_delimited_looseAssembly :
    ∃ bytes, encode looseAssembly = .ok bytes ∧
      (∀ k < bytes.length, ∃ offset needed available,
        decode { policy := .strict } (bytes.take k) =
          .error (.endOfData offset needed available)) ∧
      ∀ more, decode { policy := .strict } (bytes ++ more) =
        decode { policy := .strict } bytes := by
  obtain ⟨bytes, hencode⟩ := encode_of_encodable looseAssembly_encodable
  exact ⟨bytes, hencode, decode_delimited looseAssembly bytes { policy := .strict } rfl (by decide)
    (.inl rfl) hencode⟩

end Container

end PapyrusBackend
