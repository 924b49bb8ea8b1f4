import PapyrusBackend.Container.Reading
import PapyrusBackend.Proofs.Sequence

namespace PapyrusBackend.Container

theorem bytes_ok {n : Nat} {s s' : Reader} {taken : List UInt8}
    (h : Read.bytes n s = .ok taken s') :
    n ≤ s.rest.length ∧ taken = s.rest.take n ∧
      s' = { s with rest := s.rest.drop n, position := s.position + n } := by
  simp only [Read.bytes, List.length_take] at h
  split at h
  · next hlength =>
    cases h
    exact ⟨by omega, rfl, rfl⟩
  · cases h

theorem word_ok {width n : Nat} {s s' : Reader} (h : Read.word width s = .ok n s') :
    width ≤ s.rest.length ∧ n = ofBytes s.order (s.rest.take width) ∧
      s' = { s with rest := s.rest.drop width, position := s.position + width } := by
  have hword : Read.word width s =
      (Read.bytes width >>= fun taken => pure (ofBytes s.order taken)) s := rfl
  rw [hword] at h
  obtain ⟨taken, t, hbytes, hpure⟩ := bind_ok h
  obtain ⟨hlength, htaken, ht⟩ := bytes_ok hbytes
  cases hpure
  exact ⟨hlength, by rw [htaken], ht⟩

end PapyrusBackend.Container
