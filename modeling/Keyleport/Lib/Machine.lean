import Mathlib.Data.List.Induction
import Mathlib.Data.Nat.Find
import Mathlib.Order.Monotone.Basic

/-!
# Labelled machines and their runs

A machine is a deterministic labelled transition system: `step s l` is the state after the
label `l`, or `none` when `l` cannot happen in `s`. Interleaving is expressed by the labels: a
statement about every list of labels is a statement about every order of steps.

* `Machine.run_induction`: the rule for "every reachable state, with its history".
* `Machine.run_filter`: labels that are no-ops along a run can be dropped from it, the
  unwinding rule of non-interference arguments.
* `Machine.run_forall₂`: a run is followed step by step, along related labels.
* `Machine.run_countP_add_le`: steps that use up a measure are few.
* `eventually_const_of_bounded`: a bounded monotone counter stops, used for infinite runs.
-/

/-- A deterministic machine with states `σ` and labels `ℓ`. -/
structure Machine (σ ℓ : Type*) where
  /-- The state after a label, `none` if the label cannot happen. -/
  step : σ → ℓ → Option σ

namespace Machine

variable {σ ℓ : Type*}

/-- The state after a list of labels, `none` if one of them cannot happen. -/
def run (M : Machine σ ℓ) (s : σ) : List ℓ → Option σ
  | [] => some s
  | l :: ls => (M.step s l).bind fun s' => run M s' ls

variable (M : Machine σ ℓ)

@[simp]
theorem run_nil (s : σ) : M.run s [] = some s := rfl

theorem run_cons (s : σ) (l : ℓ) (ls : List ℓ) :
    M.run s (l :: ls) = (M.step s l).bind fun s' => M.run s' ls := rfl

/-- A run over two lists is a run over the first followed by one over the second. -/
theorem run_append (s : σ) (ls ls' : List ℓ) :
    M.run s (ls ++ ls') = (M.run s ls).bind fun s' => M.run s' ls' := by
  induction ls generalizing s with
  | nil => rfl
  | cons l ls ih =>
    rw [List.cons_append, run_cons, run_cons]
    cases M.step s l with
    | none => rfl
    | some s' => exact ih s'

variable {M}

/-- A run that ends with one more label passes through the state before it. -/
theorem run_concat_eq_some {s s' : σ} {ls : List ℓ} {l : ℓ} :
    M.run s (ls ++ [l]) = some s' ↔ ∃ t, M.run s ls = some t ∧ M.step t l = some s' := by
  rw [run_append]
  cases h : M.run s ls with
  | none => simp
  | some t => cases h' : M.step t l <;> simp [run_cons, h']

/-- A step of a run, from the state that the run has reached before it. -/
theorem step_of_prefix {s s' t : σ} {ls ls' : List ℓ} {l : ℓ} (h : M.run s ls = some s')
    (hpre : ls' ++ [l] <+: ls) (ht : M.run s ls' = some t) :
    ∃ t', M.step t l = some t' ∧ M.run s (ls' ++ [l]) = some t' := by
  obtain ⟨rest, rfl⟩ := hpre
  rw [run_append] at h
  obtain ⟨t', ht', -⟩ := Option.bind_eq_some_iff.1 h
  obtain ⟨t₀, ht₀, hstep⟩ := run_concat_eq_some.1 ht'
  obtain rfl : t₀ = t := Option.some.inj (ht₀.symm.trans ht)
  exact ⟨t', hstep, ht'⟩

/-- What holds of all steps of a run holds of its last one and of all before it. -/
theorem forall_steps_concat {P : σ → ℓ → Prop} {s t : σ} {ls : List ℓ} {l : ℓ}
    (ht : M.run s ls = some t) :
    (∀ ls' l' t', ls' ++ [l'] <+: ls ++ [l] → M.run s ls' = some t' → P t' l') ↔
      P t l ∧ ∀ ls' l' t', ls' ++ [l'] <+: ls → M.run s ls' = some t' → P t' l' := by
  constructor
  · intro hall
    exact ⟨hall ls l t List.prefix_rfl ht, fun ls' l' t' hpre =>
      hall ls' l' t' (hpre.trans (List.prefix_append _ _))⟩
  · rintro ⟨hlast, hbefore⟩ ls' l' t' hpre ht'
    rcases List.prefix_concat_iff.1 hpre with heq | hpre
    · obtain ⟨rfl, hl⟩ := List.append_inj' heq rfl
      obtain rfl := List.singleton_inj.1 hl
      obtain rfl : t = t' := Option.some.inj (ht.symm.trans ht')
      exact hlast
    · exact hbefore ls' l' t' hpre ht'

/-- Induction over runs, with the labels seen so far: what holds at the start and is kept by
one more step of a run holds of every run. -/
theorem run_induction {s₀ : σ} {motive : List ℓ → σ → Prop} (nil : motive [] s₀)
    (snoc : ∀ ls s l s', M.run s₀ ls = some s → motive ls s → M.step s l = some s' →
      motive (ls ++ [l]) s')
    {ls : List ℓ} {s : σ} (h : M.run s₀ ls = some s) : motive ls s := by
  induction ls using List.reverseRecOn generalizing s with
  | nil =>
    obtain rfl := Option.some.inj h
    exact nil
  | append_singleton ls l ih =>
    obtain ⟨t, ht, hl⟩ := run_concat_eq_some.1 h
    exact snoc ls t l s ht (ih ht) hl

/-- An inductive invariant holds after every run from a state that satisfies it. -/
theorem run_invariant {I : σ → Prop} (hstep : ∀ s l s', I s → M.step s l = some s' → I s')
    {s₀ s : σ} {ls : List ℓ} (h₀ : I s₀) (h : M.run s₀ ls = some s) : I s :=
  run_induction (motive := fun _ s => I s) h₀ (fun _ s l s' _ hI hs => hstep s l s' hI hs) h

/-- An invariant kept by the labels satisfying `P` holds after every run over such labels. -/
theorem run_invariant_of_forall {I : σ → Prop} {P : ℓ → Prop}
    (hstep : ∀ s l s', P l → I s → M.step s l = some s' → I s')
    {s₀ s : σ} {ls : List ℓ} (hP : ∀ l ∈ ls, P l) (h₀ : I s₀) (h : M.run s₀ ls = some s) :
    I s := by
  induction ls generalizing s₀ with
  | nil =>
    obtain rfl := Option.some.inj h
    exact h₀
  | cons l ls ih =>
    obtain ⟨t, ht, hrun⟩ := Option.bind_eq_some_iff.1 h
    have hI : I t := hstep s₀ l t (hP l List.mem_cons_self) h₀ ht
    exact ih (fun l' hl' => hP l' (List.mem_cons_of_mem _ hl')) hI hrun

/-- Steps that use up a measure are few: if every label of `P` keeps a measure from growing, and
those that are `counted` decrease it, then no more of them happen than the measure allows. -/
theorem run_countP_add_le {P : ℓ → Prop} {counted : ℓ → Bool} {measure : σ → ℕ}
    (hstep : ∀ s l s', P l → M.step s l = some s' →
      (if counted l then 1 else 0) + measure s' ≤ measure s)
    {s s' : σ} {ls : List ℓ} (hP : ∀ l ∈ ls, P l) (h : M.run s ls = some s') :
    ls.countP counted + measure s' ≤ measure s := by
  induction ls generalizing s with
  | nil =>
    obtain rfl := Option.some.inj h
    rw [List.countP_nil, Nat.zero_add]
  | cons l ls ih =>
    obtain ⟨t, ht, hrun⟩ := Option.bind_eq_some_iff.1 h
    have hlater := ih (fun l' hl' => hP l' (List.mem_cons_of_mem _ hl')) hrun
    have hfirst := hstep s l t (hP l List.mem_cons_self) ht
    rw [List.countP_cons]
    omega

/-- The prefixes of an infinite run are runs. -/
theorem run_prefix {s : ℕ → σ} {l : ℕ → ℓ} (h : ∀ n, M.step (s n) (l n) = some (s (n + 1)))
    (n : ℕ) : M.run (s 0) ((List.range n).map l) = some (s n) := by
  induction n with
  | zero => rfl
  | succ n ih =>
    rw [List.range_succ, List.map_append]
    exact run_concat_eq_some.2 ⟨s n, ih, h n⟩

/-- Unwinding: if the labels of `P` keep `I`, and those that fail `keep` do nothing in a state
with `I`, then dropping them does not change the outcome of a run. -/
theorem run_filter {I : σ → Prop} {P : ℓ → Prop} {keep : ℓ → Bool}
    (hstep : ∀ s l s', P l → I s → M.step s l = some s' → I s')
    (hskip : ∀ s l, P l → I s → keep l = false → M.step s l = some s)
    {s : σ} {ls : List ℓ} (hP : ∀ l ∈ ls, P l) (hI : I s) :
    M.run s (ls.filter keep) = M.run s ls := by
  induction ls generalizing s with
  | nil => rfl
  | cons l ls ih =>
    have hl : P l := hP l List.mem_cons_self
    have hls : ∀ l' ∈ ls, P l' := fun l' hl' => hP l' (List.mem_cons_of_mem _ hl')
    cases hkeep : keep l with
    | false =>
      rw [List.filter_cons_of_neg (by simp [hkeep]), run_cons, hskip s l hl hI hkeep]
      exact ih hls hI
    | true =>
      rw [List.filter_cons_of_pos hkeep, run_cons, run_cons]
      cases ht : M.step s l with
      | none => rfl
      | some t => exact ih hls (hstep s l t hl hI ht)

/-- Simulation: if related states follow each other's steps along related labels, they follow runs
along related lists of labels. -/
theorem run_forall₂ {σ' ℓ' : Type*} {M' : Machine σ' ℓ'} {R : σ → σ' → Prop} {A : ℓ → ℓ' → Prop}
    (hstep : ∀ s s' l l' t, R s s' → A l l' → M.step s l = some t →
      ∃ t', M'.step s' l' = some t' ∧ R t t')
    {s t : σ} {s' : σ'} {ls : List ℓ} {ls' : List ℓ'} (hR : R s s') (hA : List.Forall₂ A ls ls')
    (h : M.run s ls = some t) : ∃ t', M'.run s' ls' = some t' ∧ R t t' := by
  induction hA generalizing s s' with
  | nil =>
    obtain rfl := Option.some.inj h
    exact ⟨s', rfl, hR⟩
  | cons hl _ ih =>
    obtain ⟨u, hu, h⟩ := Option.bind_eq_some_iff.1 h
    obtain ⟨u', hu', hR'⟩ := hstep _ _ _ _ _ hR hl hu
    obtain ⟨t', ht', hR''⟩ := ih hR' h
    exact ⟨t', Option.bind_eq_some_iff.2 ⟨u', hu', ht'⟩, hR''⟩

end Machine

/-- A monotone natural counter that never exceeds a bound is constant from some index on. -/
theorem eventually_const_of_bounded {f : ℕ → ℕ} {b : ℕ} (hmono : Monotone f)
    (hb : ∀ n, f n ≤ b) : ∃ N, ∀ n, N ≤ n → f n = f N := by
  -- the first index at which the counter takes its largest value
  have hex : ∃ m, (∃ N, f N = m) ∧ ∀ n, f n ≤ m := by
    have hne : ∃ m, ∀ n, f n ≤ m := ⟨b, hb⟩
    classical
    refine ⟨Nat.find hne, ?_, Nat.find_spec hne⟩
    by_contra hno
    rw [not_exists] at hno
    have hlt : ∀ n, f n < Nat.find hne := fun n =>
      lt_of_le_of_ne (Nat.find_spec hne n) (hno n)
    have hpos : 0 < Nat.find hne := lt_of_le_of_lt (Nat.zero_le _) (hlt 0)
    exact Nat.find_min hne (m := Nat.find hne - 1) (by omega) fun n => by
      have := hlt n
      omega
  obtain ⟨m, ⟨N, hN⟩, hle⟩ := hex
  exact ⟨N, fun n hn => le_antisymm (hN ▸ hle n) (hmono hn)⟩
