import Mathlib.Data.List.Chain
import Mathlib.Data.List.TakeWhile
import Mathlib.Order.Lattice.Nat

/-!
# Heartbeats over a lossy channel

A sender beats at times a bounded gap apart. Of the beats some are lost, but no more than a bound
in a row, and the others are heard within a bounded delay. Then one of the beats that were heard
is recent.

* `Heartbeat.le_of_gaps`: how far the present is from a beat, by the number of beats since that
  were due.
* `Heartbeat.exists_recent`: a beat that was heard is no older than the gaps of the losses and the
  delay.
-/

namespace Heartbeat

/-- Times of which each is at most `gap` after the one before it. -/
def Gaps (gap : ℕ) (times : List ℕ) : Prop := times.IsChain fun t t' => t' ≤ t + gap

/-- Up to `now` the beats went on: the last is at most `gap` ago. -/
def GoesOn (gap now : ℕ) (times : List ℕ) : Prop := ∀ t ∈ times.getLast?, now ≤ t + gap

instance (gap : ℕ) (times : List ℕ) : Decidable (Gaps gap times) :=
  inferInstanceAs (Decidable (times.IsChain _))

instance (gap now : ℕ) (times : List ℕ) : Decidable (GoesOn gap now times) :=
  inferInstanceAs (Decidable (∀ t ∈ times.getLast?, _))

variable {gap delay now t : ℕ} {times rest : List ℕ}

/-- The present is no further from a beat than the gaps of the beats that were due since, one
more gap, and the delay. -/
theorem le_of_gaps (hgaps : Gaps gap (t :: rest)) (hon : GoesOn gap now (t :: rest)) :
    now ≤ t + ((rest.takeWhile fun t' => t' + delay < now).length + 1) * gap + delay := by
  induction rest generalizing t with
  | nil =>
    have hlast := hon t rfl
    simp only [List.takeWhile_nil, List.length_nil]
    omega
  | cons t' rest ih =>
    obtain ⟨hgap, hgaps⟩ := List.isChain_cons_cons.1 hgaps
    by_cases hdue : t' + delay < now
    · -- the next beat was due, and the rest is counted from it
      have hrest := ih hgaps fun v hv => hon v (by rwa [List.getLast?_cons_cons])
      rw [List.takeWhile_cons_of_pos (by simpa using hdue), List.length_cons]
      generalize (rest.takeWhile fun t' => t' + delay < now).length = n at hrest ⊢
      calc now ≤ t' + (n + 1) * gap + delay := hrest
        _ ≤ t + gap + (n + 1) * gap + delay := by omega
        _ = t + (n + 1 + 1) * gap + delay := by rw [Nat.succ_mul (n + 1)]; omega
    · rw [List.takeWhile_cons_of_neg (by simpa using hdue), List.length_nil]
      omega

/-- If at most `losses` beats in a row are lost after one that was heard, and all others are
heard by `delay` after they were sent, then a beat was heard that is recent. -/
theorem exists_recent {losses : ℕ} (heard lost : ℕ → Prop) (hgaps : Gaps gap times)
    (hon : GoesOn gap now times) (hsome : ∃ i, heard i ∧ i < times.length)
    (harrives : ∀ i t, times[i]? = some t → ¬ lost i → t + delay < now → heard i)
    (hlosses : ∀ i, heard i → ∀ n, (∀ j, i < j → j ≤ i + n → j < times.length ∧ lost j) →
      n ≤ losses) :
    ∃ i t, heard i ∧ times[i]? = some t ∧ now ≤ t + (losses + 1) * gap + delay := by
  -- the last beat that was heard
  obtain ⟨i, ⟨hheard, hlt⟩, hmax⟩ : ∃ i, (heard i ∧ i < times.length) ∧
      ∀ j, heard j ∧ j < times.length → j ≤ i := by
    have hbdd : BddAbove {i | heard i ∧ i < times.length} :=
      ⟨times.length, fun j hj => hj.2.le⟩
    exact ⟨_, Nat.sSup_mem hsome hbdd, fun j hj => le_csSup hbdd hj⟩
  have hget : times[i]? = some times[i] := List.getElem?_eq_getElem hlt
  have hdrop : times.drop i = times[i] :: times.drop (i + 1) := List.drop_eq_getElem_cons hlt
  refine ⟨i, times[i], hheard, hget, ?_⟩
  have hle : now ≤ times[i] + (((times.drop (i + 1)).takeWhile fun t' => t' + delay < now).length
      + 1) * gap + delay := by
    refine le_of_gaps ?_ fun v hv => hon v ?_
    · rw [← hdrop]
      exact List.IsChain.drop hgaps i
    · rw [← hdrop, List.getLast?_drop] at hv
      split at hv
      · cases hv
      · exact hv
  -- the beats since that were due were lost
  have hn : ((times.drop (i + 1)).takeWhile fun t' => t' + delay < now).length ≤ losses := by
    refine hlosses i hheard _ fun j hij hjn => ?_
    obtain ⟨m, rfl⟩ := Nat.exists_eq_add_of_le (Nat.succ_le_of_lt hij)
    have hm : m < ((times.drop (i + 1)).takeWhile fun t' => t' + delay < now).length := by omega
    have htake := List.takeWhile_prefix (p := fun t' => t' + delay < now) (l := times.drop (i + 1))
    have hj : i + 1 + m < times.length := by
      have hlength := htake.length_le
      rw [List.length_drop] at hlength
      omega
    have hdue : times[i + 1 + m] + delay < now := by
      have hmem := List.mem_takeWhile_imp (List.getElem_mem hm)
      rw [htake.getElem hm, List.getElem_drop] at hmem
      simpa using hmem
    refine ⟨hj, ?_⟩
    by_contra hkept
    have harrived := harrives _ _ (List.getElem?_eq_getElem hj) hkept hdue
    have hlast := hmax _ ⟨harrived, hj⟩
    omega
  have hmul := Nat.mul_le_mul_right gap (Nat.succ_le_succ hn)
  simp only [Nat.succ_eq_add_one] at hmul
  omega

end Heartbeat
