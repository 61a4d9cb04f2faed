/-!
Results that are a value or an error. A step after a result is taken only from a value, and a fold
over a list stops at the first element that gives an error.
-/
namespace Wiring

variable {ε ε' α β σ : Type}

theorem map_eq_ok_iff {x : Except ε α} {f : α → β} {b : β} :
    x.map f = .ok b ↔ ∃ a, x = .ok a ∧ f a = b := by
  cases x <;> simp [Except.map]

theorem bind_eq_ok_iff {x : Except ε α} {f : α → Except ε β} {b : β} :
    x >>= f = .ok b ↔ ∃ a, x = .ok a ∧ f a = .ok b := by
  cases x <;> simp [bind, Except.bind]

theorem mapError_eq_ok_iff {x : Except ε α} {f : ε → ε'} {a : α} :
    x.mapError f = .ok a ↔ x = .ok a := by
  cases x with
  | error e => exact ⟨nofun, nofun⟩
  | ok b =>
    exact ⟨fun h => congrArg Except.ok (Except.ok.inj h),
      fun h => congrArg Except.ok (Except.ok.inj h)⟩

theorem toOption_eq_some_iff {x : Except ε α} {a : α} : x.toOption = some a ↔ x = .ok a := by
  cases x <;> simp [Except.toOption]

section Fold

variable {f : σ → α → Except ε σ} {xs : List α} {s s' : σ} {e : ε}

/-- What every step of a fold keeps holds at its end. -/
theorem foldlM_keeps {P : σ → Prop} (hstep : ∀ a s s', P s → f s a = .ok s' → P s') (hs : P s)
    (h : xs.foldlM f s = .ok s') : P s' := by
  induction xs generalizing s with
  | nil =>
    cases h
    exact hs
  | cons x xs ih =>
    rw [List.foldlM_cons, bind_eq_ok_iff] at h
    obtain ⟨s₁, hx, hrest⟩ := h
    exact ih (hstep x s s₁ hs hx) hrest

theorem foldlM_eq_error (h : xs.foldlM f s = .error e) :
    ∃ k a s', xs[k]? = some a ∧ (xs.take k).foldlM f s = .ok s' ∧ f s' a = .error e := by
  induction xs generalizing s with
  | nil => cases h
  | cons x xs ih =>
    rw [List.foldlM_cons] at h
    cases hx : f s x with
    | error e' =>
      rw [hx] at h
      cases h
      exact ⟨0, x, s, rfl, rfl, hx⟩
    | ok s₁ =>
      rw [hx] at h
      obtain ⟨k, a, s', ha, htake, hfail⟩ := ih h
      refine ⟨k + 1, a, s', ha, ?_, hfail⟩
      rw [List.take_succ_cons, List.foldlM_cons, hx]
      exact htake

end Fold

end Wiring
