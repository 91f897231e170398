import Mathlib.Data.List.Basic

/-!
# Computations that may throw

Rules for `Except`: when a sequence of computations returns, and what a loop over a list keeps.
-/

namespace Except

variable {ε α β σ : Type}

theorem eq_ok_of_toOption {x : Except ε α} {a : α} (h : x.toOption = some a) : x = .ok a := by
  cases x with
  | error e => cases h
  | ok b => exact congrArg _ (Option.some.inj h)

/-- A computation in two parts returns exactly when both parts do. -/
theorem bind_ok_iff {x : Except ε α} {f : α → Except ε β} :
    (∃ b, (x >>= f) = .ok b) ↔ ∃ a, x = .ok a ∧ ∃ b, f a = .ok b := by
  cases x <;> simp [bind, Except.bind]

/-- The result of a computation in two parts comes from results of both. -/
theorem bind_eq_ok_iff {x : Except ε α} {f : α → Except ε β} {b : β} :
    (x >>= f) = .ok b ↔ ∃ a, x = .ok a ∧ f a = .ok b := by
  cases x <;> simp [bind, Except.bind]

/-- What every iteration keeps, a loop that returns keeps. -/
theorem foldlM_invariant {P : σ → Prop} {f : σ → α → Except ε σ} {xs : List α}
    (hstep : ∀ x ∈ xs, ∀ s s', P s → f s x = .ok s' → P s') {s s' : σ} (hs : P s)
    (h : xs.foldlM f s = .ok s') : P s' := by
  induction xs generalizing s with
  | nil =>
    obtain rfl := Except.ok.inj h
    exact hs
  | cons x xs ih =>
    rw [List.foldlM_cons] at h
    cases hx : f s x with
    | error e =>
      rw [hx] at h
      cases h
    | ok t =>
      -- the first iteration reaches `t`, and the loop goes on from there
      rw [hx] at h
      exact ih (fun y hy => hstep y (List.mem_cons_of_mem _ hy))
        (hstep x List.mem_cons_self s t hs hx) h

/-- When every iteration returns from a state with `P` to one with `P`, so does a loop. -/
theorem foldlM_total {P : σ → Prop} {f : σ → α → Except ε σ}
    (hstep : ∀ s x, P s → ∃ s', f s x = .ok s' ∧ P s') (xs : List α) {s : σ} (hs : P s) :
    ∃ s', xs.foldlM f s = .ok s' ∧ P s' := by
  induction xs generalizing s with
  | nil => exact ⟨s, rfl, hs⟩
  | cons x xs ih =>
    obtain ⟨t, hx, ht⟩ := hstep s x hs
    obtain ⟨s', hrest, hs'⟩ := ih ht
    exact ⟨s', by rw [List.foldlM_cons, hx]; exact hrest, hs'⟩

/-- When whether an iteration throws does not depend on the state, a loop returns exactly when
no iteration throws. -/
theorem foldlM_ok_iff {ok : α → Prop} {f : σ → α → Except ε σ}
    (hok : ∀ s x, (∃ s', f s x = .ok s') ↔ ok x) (xs : List α) (s : σ) :
    (∃ s', xs.foldlM f s = .ok s') ↔ ∀ x ∈ xs, ok x := by
  induction xs generalizing s with
  | nil => simp [pure, Except.pure]
  | cons x xs ih =>
    rw [List.foldlM_cons, List.forall_mem_cons, ← hok s x]
    cases hx : f s x with
    | error e => simp [bind, Except.bind]
    | ok t =>
      simp only [bind, Except.bind, Except.ok.injEq, exists_eq', true_and]
      exact ih t

end Except
