namespace PapyrusBackend

instance decidableEqResult [DecidableEq ε] [DecidableEq σ] [DecidableEq α] :
    DecidableEq (EStateM.Result ε σ α)
  | .ok a s, .ok b t => decidable_of_iff (a = b ∧ s = t) (by rw [EStateM.Result.ok.injEq])
  | .error a s, .error b t =>
    decidable_of_iff (a = b ∧ s = t) (by rw [EStateM.Result.error.injEq])
  | .ok _ _, .error _ _ => .isFalse fun h => (by cases h)
  | .error _ _, .ok _ _ => .isFalse fun h => (by cases h)

variable {ε σ : Type} {x : EStateM ε σ α} {k : α → EStateM ε σ β} {s s' t : σ} {a : α} {b : β}

/-- A sequence that succeeds runs its first part and then its second. -/
theorem bind_ok (h : (x >>= k) s = .ok b s') : ∃ a t, x s = .ok a t ∧ k a t = .ok b s' := by
  replace h : EStateM.bind x k s = .ok b s' := h
  cases hx : x s with
  | error fault t => simp [EStateM.bind, hx] at h
  | ok a t =>
    simp only [EStateM.bind, hx] at h
    exact ⟨a, t, rfl, h⟩

/-- A sequence that fails does so in its first part or in its second. -/
theorem bind_error {fault : ε} (h : (x >>= k) s = .error fault s') :
    x s = .error fault s' ∨ ∃ a t, x s = .ok a t ∧ k a t = .error fault s' := by
  replace h : EStateM.bind x k s = .error fault s' := h
  cases hx : x s with
  | error fault' t =>
    simp only [EStateM.bind, hx] at h
    cases h
    exact .inl rfl
  | ok a t =>
    simp only [EStateM.bind, hx] at h
    exact .inr ⟨a, t, rfl, h⟩

theorem bind_run (h : x s = .ok a t) : (x >>= k) s = k a t := by
  show EStateM.bind x k s = k a t
  simp only [EStateM.bind, h]

theorem get_bind {k : σ → EStateM ε σ β} : (get >>= k) s = k s s := rfl

theorem bind_fails {fault : ε} (h : x s = .error fault t) : (x >>= k) s = .error fault t := by
  show EStateM.bind x k s = .error fault t
  simp only [EStateM.bind, h]

theorem except_bind_ok {x : Except ε α} {k : α → Except ε β} (h : (x >>= k) = .ok b) :
    ∃ a, x = .ok a ∧ k a = .ok b := by
  cases x with
  | error fault => cases h
  | ok a => exact ⟨a, rfl, h⟩

theorem ok_of_toOption {x : Except ε α} (h : x.toOption = some a) : x = .ok a := by
  cases x with
  | error fault => cases h
  | ok b => exact congrArg _ (Option.some.inj h)

/-- What a computation that succeeds has come to. -/
theorem exists_ok_of_toOption {x : Except ε α} {g : α → β} (h : x.toOption.map g = some b) :
    ∃ a, x = .ok a ∧ g a = b := by
  obtain ⟨a, ha, hb⟩ := Option.map_eq_some_iff.1 h
  exact ⟨a, ok_of_toOption ha, hb⟩

end PapyrusBackend
