import Mathlib.Data.List.Basic

/-!
# Erasing from two vectors in lockstep

A loop with one iterator into each of two vectors. It stops when either iterator is at the end;
until then it erases at both iterators, which then stand at the elements that moved up, or advances
both. The vectors need not have one length.

* `Lockstep.erase`: the loop, with its iterators as indices.
* `Lockstep.erase_eq`: it filters the pairs, and keeps what is longer.
-/

namespace Lockstep

variable {α β : Type} (drop : β → Bool)

/-- The loop from the indices `i` and `j` on, erasing where `drop` holds of the second element. -/
def eraseFrom (xs : List α) (ys : List β) (i j : ℕ) : List α × List β :=
  if h : i < xs.length ∧ j < ys.length then
    if drop (ys.get ⟨j, h.2⟩) then eraseFrom (xs.eraseIdx i) (ys.eraseIdx j) i j
    else eraseFrom xs ys (i + 1) (j + 1)
  else (xs, ys)
termination_by xs.length - i
decreasing_by
  · have hlen := List.length_eraseIdx_of_lt h.1
    omega
  · omega

/-- The loop over two vectors. -/
def erase (xs : List α) (ys : List β) : List α × List β := eraseFrom drop xs ys 0 0

/-- The pairs at the indices that both vectors have, less those that are dropped. -/
def kept (xs : List α) (ys : List β) : List (α × β) := (xs.zip ys).filter fun e => !drop e.2

variable {drop}

/-- A vector that is used up ends the loop. -/
private theorem eraseFrom_of_nil {front : List α} {front' : List β} {xs : List α} {ys : List β}
    (hnil : xs = [] ∨ ys = []) :
    eraseFrom drop (front ++ xs) (front' ++ ys) front.length front'.length =
      (front ++ xs, front' ++ ys) := by
  rw [eraseFrom, dif_neg]
  rintro ⟨hx, hy⟩
  rcases hnil with rfl | rfl
  · simp at hx
  · simp at hy

/-- Erasing behind a front part erases the first element that is left. -/
private theorem eraseIdx_front {γ : Type} (front : List γ) (z : γ) (zs : List γ) :
    (front ++ z :: zs).eraseIdx front.length = front ++ zs := by
  rw [List.eraseIdx_append_of_length_le (Nat.le_refl _), Nat.sub_self, List.eraseIdx_zero,
    List.tail_cons]

/-- One iteration, at the first pair that is left. -/
private theorem eraseFrom_cons (front : List α) (front' : List β) (x : α) (y : β) (xs : List α)
    (ys : List β) :
    eraseFrom drop (front ++ x :: xs) (front' ++ y :: ys) front.length front'.length =
      if drop y then eraseFrom drop (front ++ xs) (front' ++ ys) front.length front'.length
      else eraseFrom drop ((front ++ [x]) ++ xs) ((front' ++ [y]) ++ ys) (front ++ [x]).length
        (front' ++ [y]).length := by
  have hin : front.length < (front ++ x :: xs).length ∧
      front'.length < (front' ++ y :: ys).length := by simp
  have hget : (front' ++ y :: ys).get ⟨front'.length, hin.2⟩ = y := by simp
  rw [eraseFrom, dif_pos hin, hget, eraseIdx_front, eraseIdx_front, List.append_assoc,
    List.append_assoc, List.length_append, List.length_append]
  rfl

/-- The loop filters the pairs that are left and does not touch what is in front of its
iterators. -/
theorem eraseFrom_append (front : List α) (front' : List β) (xs : List α) (ys : List β) :
    eraseFrom drop (front ++ xs) (front' ++ ys) front.length front'.length =
      (front ++ ((kept drop xs ys).map Prod.fst ++ xs.drop (min xs.length ys.length)),
        front' ++ ((kept drop xs ys).map Prod.snd ++ ys.drop (min xs.length ys.length))) := by
  induction xs generalizing front front' ys with
  | nil =>
    rw [eraseFrom_of_nil (Or.inl rfl)]
    simp [kept]
  | cons x xs ih =>
    cases ys with
    | nil =>
      rw [eraseFrom_of_nil (Or.inr rfl)]
      simp [kept]
    | cons y ys =>
      have hmin : min (x :: xs).length (y :: ys).length = min xs.length ys.length + 1 := by
        simp only [List.length_cons]
        omega
      rw [eraseFrom_cons, hmin, List.drop_succ_cons, List.drop_succ_cons]
      cases hy : drop y with
      | true =>
        -- the next pair has moved up to the iterators
        have hkept : kept drop (x :: xs) (y :: ys) = kept drop xs ys := by simp [kept, hy]
        rw [if_pos rfl, ih, hkept]
      | false =>
        -- the pair is now in front of the iterators
        have hkept : kept drop (x :: xs) (y :: ys) = (x, y) :: kept drop xs ys := by
          simp [kept, hy]
        rw [if_neg Bool.false_ne_true, ih, hkept]
        simp

/-- The loop keeps, of the pairs at the indices that both vectors have, those that are not dropped,
in their order and still paired, and the rest of the longer vector behind them. -/
theorem erase_eq (xs : List α) (ys : List β) :
    erase drop xs ys =
      ((kept drop xs ys).map Prod.fst ++ xs.drop (min xs.length ys.length),
        (kept drop xs ys).map Prod.snd ++ ys.drop (min xs.length ys.length)) :=
  eraseFrom_append [] [] xs ys

end Lockstep
