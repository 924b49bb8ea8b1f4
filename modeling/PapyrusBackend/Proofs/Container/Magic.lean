import PapyrusBackend.Container.Decode
import PapyrusBackend.Proofs.Container.Running
import PapyrusBackend.Proofs.Container.Words

namespace PapyrusBackend.Container

/-- The first four bytes of a header are its identifier. -/
theorem header_identifier {s s' : Reader} {h : Header} (hrun : Read.header s = .ok h s') :
    4 ≤ s.rest.length ∧ h.identifier = UInt32.ofNat (ofBytes s.order (s.rest.take 4)) := by
  obtain ⟨identifier, t, hu32, hrun⟩ := bind_ok hrun
  obtain ⟨n, t', hword, hpure⟩ := bind_ok hu32
  obtain ⟨hlength, hn, _⟩ := word_ok hword
  cases hpure
  obtain ⟨_, _, _, hrun⟩ := bind_ok hrun
  obtain ⟨_, _, _, hrun⟩ := bind_ok hrun
  obtain ⟨_, _, _, hrun⟩ := bind_ok hrun
  obtain ⟨_, _, _, hrun⟩ := bind_ok hrun
  obtain ⟨_, _, _, hrun⟩ := bind_ok hrun
  obtain ⟨_, _, _, hrun⟩ := bind_ok hrun
  obtain ⟨_, _, _, hrun⟩ := bind_ok hrun
  cases hrun
  exact ⟨hlength, by rw [hn]⟩

theorem detect_eq {generation : Generation} {data : List UInt8}
    (h : data.take 4 = toBytes generation.order 4 magic.toNat) :
    detect data = .ok generation := by
  cases generation with
  | skyrim => exact if_pos h
  | fallout4 =>
    have hne : data.take 4 ≠ toBytes .big 4 magic.toNat := by
      rw [h]
      decide
    simp only [detect, if_neg hne]
    exact if_pos h

theorem take_of_detect {generation : Generation} {data : List UInt8}
    (h : detect data = .ok generation) :
    data.take 4 = toBytes generation.order 4 magic.toNat := by
  simp only [detect] at h
  split at h
  · next hbig =>
    cases h
    exact hbig
  · split at h
    · next hlittle =>
      cases h
      exact hlittle
    · split at h <;> cases h

end PapyrusBackend.Container
