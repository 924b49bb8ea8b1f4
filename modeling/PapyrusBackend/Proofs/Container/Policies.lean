import PapyrusBackend.Proofs.Container.Coupling
import PapyrusBackend.Proofs.Container.Reencoding

namespace PapyrusBackend

def Fault.IsBadIndex (fault : Fault) : Prop := ∃ index size, fault = .badIndex index size

namespace Container

def leniency : Coupling where
  alike s t := s.policy = .strict ∧ s.corrupted = false ∧ t = { s with policy := .lenient }
  parting := Fault.IsBadIndex
  astray t := t.corrupted = true
  differ := by
    rintro s t ⟨_, _, rfl⟩
    rfl
  withTable := by
    rintro s t ⟨hpolicy, hcorrupted, rfl⟩ table
    exact ⟨hpolicy, hcorrupted, rfl⟩
  bytes := by
    rintro s t ⟨hpolicy, hcorrupted, rfl⟩ n
    simp only [Read.bytes]
    split
    · exact .together _ ⟨hpolicy, hcorrupted, rfl⟩
    · exact .stopped _
  resolve := by
    rintro s t ⟨hpolicy, hcorrupted, rfl⟩ place
    simp only [Read.resolve]
    split
    · exact .together place ⟨hpolicy, hcorrupted, rfl⟩
    · rw [if_pos (.inl hpolicy)]
      refine .parted ⟨place, s.table.size, rfl⟩ fun found t hrun => ?_
      split at hrun
      · cases hrun
      · cases hrun
        rfl
  astray_withTable h _ := h
  astray_bytes h hrun := by
    obtain ⟨_, _, rfl⟩ := bytes_ok hrun
    exact h
  astray_resolve h hrun := by
    simp only [Read.resolve] at hrun
    split at hrun
    · cases hrun
      exact h
    · split at hrun
      · cases hrun
      · cases hrun
        rfl

/-- How the answers of the two policies to the same data compare. -/
inductive Answers : Except Fault Assembly → Except Fault Assembly → Prop
  | same (a : Assembly) (h : a.corrupted = false) : Answers (.ok a) (.ok a)
  | refused (fault : Fault) : Answers (.error fault) (.error fault)
  | amended {fault : Fault} {lenient : Except Fault Assembly} (h : fault.IsBadIndex)
      (hlenient : ∀ a, lenient = .ok a → a.corrupted = true) : Answers (.error fault) lenient

theorem assembly_answers (generation : Generation) (data : List UInt8) (order : ByteOrder) :
    Answers (outcome (Read.assembly generation { rest := data, order, policy := .strict }))
      (outcome (Read.assembly generation { rest := data, order, policy := .lenient })) := by
  have hfollows := (coupled_assembly (c := leniency) generation).follows
    (s := { rest := data, order, policy := .strict })
    (t := { rest := data, order, policy := .lenient }) ⟨rfl, rfl, rfl⟩
  generalize hstrict : Read.assembly generation { rest := data, order, policy := .strict } = strict
    at hfollows ⊢
  generalize hlenient : Read.assembly generation { rest := data, order, policy := .lenient } =
    lenient at hfollows ⊢
  cases hfollows with
  | together a h => exact .same a ((assembly_corrupted hstrict).trans h.2.1)
  | stopped fault => exact .refused fault
  | parted hfault hresult =>
    refine .amended hfault fun a hanswer => ?_
    cases lenient with
    | error fault t => cases hanswer
    | ok b t =>
      cases hanswer
      exact (assembly_corrupted hlenient).trans (hresult a t rfl)

theorem decode_answers (expected : Option Generation) (data : List UInt8) :
    Answers (decode { expected, policy := .strict } data)
      (decode { expected, policy := .lenient } data) := by
  cases hdetect : detect data with
  | error fault =>
    simp only [decode, hdetect]
    exact .refused fault
  | ok generation =>
    cases hcheck : checkGeneration expected generation with
    | error fault =>
      simp only [decode, hdetect, hcheck, bind, Except.bind]
      exact .refused fault
    | ok _ =>
      rw [decode_eq hdetect hcheck, decode_eq hdetect hcheck]
      exact assembly_answers generation data generation.order

/-- The policies give the same assemblies that needed nothing put right, and the same faults but for
places beyond the string table. A lenient reader puts something right only where a strict one finds
such a place. -/
theorem decode_policies_agree (expected : Option Generation) (data : List UInt8) :
    (∀ a, decode { expected, policy := .strict } data = .ok a ↔
      decode { expected, policy := .lenient } data = .ok a ∧ a.corrupted = false) ∧
    (∀ fault, decode { expected, policy := .strict } data = .error fault →
      (∀ index size, fault ≠ .badIndex index size) →
      decode { expected, policy := .lenient } data = .error fault) ∧
    ∀ a, decode { expected, policy := .lenient } data = .ok a → a.corrupted = true →
      ∃ index size, decode { expected, policy := .strict } data = .error (.badIndex index size) := by
  have hanswers := decode_answers expected data
  generalize decode { expected, policy := .strict } data = strict at hanswers ⊢
  generalize decode { expected, policy := .lenient } data = lenient at hanswers ⊢
  cases hanswers with
  | same a h =>
    refine ⟨fun b => ⟨fun hb => ?_, And.left⟩, nofun, fun b hb hmark => ?_⟩
    · cases hb
      exact ⟨rfl, h⟩
    · cases hb
      exact absurd (h.symm.trans hmark) Bool.false_ne_true
  | refused fault => exact ⟨fun b => ⟨nofun, nofun⟩, fun _ h _ => h, nofun⟩
  | amended hfault hlenient =>
    obtain ⟨index, size, rfl⟩ := hfault
    refine ⟨fun b => ⟨nofun, fun hb => ?_⟩, fun fault h hother => ?_, fun _ _ _ => ⟨index, size, rfl⟩⟩
    · exact absurd ((hlenient b hb.1).symm.trans hb.2) Bool.true_eq_false.mp
    · cases h
      exact absurd rfl (hother index size)

/-- A container that names a text beyond its table. -/
theorem decode_policies_agree_oddContainer :
    ∃ a index size, decode { policy := .lenient } oddContainer = .ok a ∧ a.corrupted = true ∧
      decode { policy := .strict } oddContainer = .error (.badIndex index size) := by
  have hmark : (decode { policy := .lenient } oddContainer).toOption.map Assembly.corrupted =
      some true := by
    decide +kernel
  cases hdecode : decode { policy := .lenient } oddContainer with
  | error fault =>
    rw [hdecode] at hmark
    cases hmark
  | ok a =>
    rw [hdecode] at hmark
    have hcorrupted : a.corrupted = true := Option.some.inj hmark
    obtain ⟨_, _, hparted⟩ := decode_policies_agree none oddContainer
    obtain ⟨index, size, hstrict⟩ := hparted a hdecode hcorrupted
    exact ⟨a, index, size, rfl, hcorrupted, hstrict⟩

end Container

end PapyrusBackend
