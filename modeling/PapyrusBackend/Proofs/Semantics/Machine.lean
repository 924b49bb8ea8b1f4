namespace PapyrusBackend.Semantics

inductive Progress (σ ω : Type) where
  | next (state : σ)
  | halt (outcome : ω)
  | stuck

inductive Steps (step : σ → Progress σ ω) : Nat → σ → σ → Prop
  | refl (s : σ) : Steps step 0 s s
  | head {s t u : σ} {n : Nat} : step s = .next t → Steps step n t u → Steps step (n + 1) s u

def Halts (step : σ → Progress σ ω) (s : σ) (o : ω) : Prop :=
  ∃ n t, Steps step n s t ∧ step t = .halt o

def run (step : σ → Progress σ ω) : (fuel : Nat) → σ → Option ω
  | 0, _ => none
  | fuel + 1, s =>
    match step s with
    | .next s => run step fuel s
    | .halt o => some o
    | .stuck => none

section

variable {step : σ → Progress σ ω} {s t u : σ} {o : ω} {m n : Nat}

theorem Steps.one (h : step s = .next t) : Steps step 1 s t := .head h (.refl t)

theorem Steps.trans (h₁ : Steps step m s t) (h₂ : Steps step n t u) : Steps step (m + n) s u := by
  induction h₁ with
  | refl s => rwa [Nat.zero_add]
  | head hstep _ ih =>
    rw [Nat.succ_add]
    exact .head hstep (ih h₂)

theorem Halts.now (h : step s = .halt o) : Halts step s o := ⟨0, s, .refl s, h⟩

theorem Halts.after (h₁ : Steps step m s t) (h₂ : Halts step t o) : Halts step s o := by
  obtain ⟨n, u, hsteps, hhalt⟩ := h₂
  exact ⟨m + n, u, h₁.trans hsteps, hhalt⟩

theorem halts_of_run (fuel : Nat) (h : run step fuel s = some o) : Halts step s o := by
  induction fuel generalizing s with
  | zero => cases h
  | succ fuel ih =>
    rw [run] at h
    cases hstep : step s with
    | next s' =>
      simp only [hstep] at h
      exact Halts.after (Steps.one hstep) (ih h)
    | halt o' =>
      simp only [hstep] at h
      cases h
      exact Halts.now hstep
    | stuck => simp only [hstep, reduceCtorEq] at h

/-- A machine has no choice, so that it passes through every state on its way. -/
theorem Steps.rest (h₁ : Steps step m s t) (h₂ : Steps step n s u) (hhalt : step u = .halt o) :
    m ≤ n ∧ Steps step (n - m) t u := by
  induction h₁ generalizing n with
  | refl s => exact ⟨Nat.zero_le n, h₂⟩
  | head hstep _ ih =>
    cases h₂ with
    | refl => rw [hstep] at hhalt; cases hhalt
    | head hstep' h₂ =>
      rw [hstep] at hstep'
      cases hstep'
      obtain ⟨hle, hrest⟩ := ih h₂
      refine ⟨Nat.succ_le_succ hle, ?_⟩
      rwa [Nat.add_sub_add_right]

end

/-- How the second machine follows a step of the first. -/
inductive Follows (step₁ : σ → Progress σ ω) (step₂ : τ → Progress τ ω) (R : σ → τ → Prop)
    (rank : σ → Nat) (s : σ) (t : τ) : Prop
  | next {s' : σ} {n : Nat} {t' : τ} (hstep : step₁ s = .next s') (hsteps : Steps step₂ n t t')
      (hR : R s' t') (hrank : n = 0 → rank s' < rank s)
  | halt {o : ω} (hstep : step₁ s = .halt o) (hhalts : Halts step₂ t o)

def Simulates (step₁ : σ → Progress σ ω) (step₂ : τ → Progress τ ω) (R : σ → τ → Prop)
    (rank : σ → Nat) : Prop :=
  ∀ s t, R s t → Follows step₁ step₂ R rank s t

namespace Simulates

variable {step₁ : σ → Progress σ ω} {step₂ : τ → Progress τ ω} {R : σ → τ → Prop}
  {rank : σ → Nat}

theorem forward (h : Simulates step₁ step₂ R rank) {n : Nat} {s u : σ} {t : τ} {o : ω} (hR : R s t)
    (hsteps : Steps step₁ n s u) (hhalt : step₁ u = .halt o) : Halts step₂ t o := by
  induction hsteps generalizing t with
  | refl s =>
    cases h s t hR with
    | next hstep => rw [hstep] at hhalt; cases hhalt
    | halt hstep hhalts => rw [hstep] at hhalt; cases hhalt; exact hhalts
  | @head s _ _ _ hfirst _ ih =>
    cases h s t hR with
    | next hstep hmatch hR' =>
      rw [hstep] at hfirst
      cases hfirst
      exact Halts.after hmatch (ih hR' hhalt)
    | halt hstep => rw [hstep] at hfirst; cases hfirst

/-- The induction is on the steps that the second machine still makes, and within these on the
rank. -/
theorem backward (h : Simulates step₁ step₂ R rank) {o : ω} (n : Nat) :
    ∀ (r : Nat) (s : σ) (t u : τ), rank s = r → R s t → Steps step₂ n t u → step₂ u = .halt o →
      Halts step₁ s o := by
  induction n using Nat.strongRecOn with
  | ind n ihn =>
    intro r
    induction r using Nat.strongRecOn with
    | ind r ihr =>
      intro s t u hr hR hsteps hhalt
      cases h s t hR with
      | @halt o' hstep hhalts =>
        obtain ⟨n', u', hsteps', hhalt'⟩ := hhalts
        obtain ⟨hle, hrest⟩ := hsteps'.rest hsteps hhalt
        obtain ⟨hle', _⟩ := hsteps.rest hsteps' hhalt'
        rw [Nat.le_antisymm hle' hle, Nat.sub_self] at hrest
        cases hrest
        rw [hhalt] at hhalt'
        cases hhalt'
        exact Halts.now hstep
      | @next s' k t' hstep hmatch hR' hrank =>
        obtain ⟨hle, hrest⟩ := hmatch.rest hsteps hhalt
        refine Halts.after (Steps.one hstep) ?_
        by_cases hk : k = 0
        · subst hk
          exact ihr (rank s') (hr ▸ hrank rfl) s' t' u rfl hR' hrest hhalt
        · exact ihn (n - k) (by omega) (rank s') s' t' u rfl hR' hrest hhalt

theorem halts_iff (h : Simulates step₁ step₂ R rank) {s : σ} {t : τ} (hR : R s t) (o : ω) :
    Halts step₁ s o ↔ Halts step₂ t o := by
  constructor
  · rintro ⟨n, u, hsteps, hhalt⟩
    exact h.forward hR hsteps hhalt
  · rintro ⟨n, u, hsteps, hhalt⟩
    exact h.backward n (rank s) s t u rfl hR hsteps hhalt

end Simulates

end PapyrusBackend.Semantics
