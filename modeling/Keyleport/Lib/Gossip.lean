import Mathlib.Algebra.Order.BigOperators.Group.Finset
import Mathlib.Data.Fintype.Card
import Mathlib.Data.Set.Insert

/-!
# Gossip by announcements

Nodes that start at any time and learn of each other. A node that starts announces itself to
every started node; a node that hears of another for the first time answers with an
announcement of its own; a node may also announce itself unasked. Announcements are delivered
in any order and may be duplicated, and with `loss` they may be lost.

* `Gossip.Invariant.step`: nodes know only started nodes, and have answered once for each.
* `Gossip.Converging.step`: without loss, of two started nodes each knows the other, or is about
  to be told.
* `Gossip.converged`, `Gossip.answers_le`, `Gossip.sum_answers_le`: with nothing in flight
  everybody knows everybody, and no node answers more than once for each other node.
-/

namespace Gossip

variable {D : Type*} [DecidableEq D]

/-- The state of the nodes and of the network. -/
@[ext]
structure State (D : Type*) where
  started : Set D
  /-- The nodes each node has heard of. -/
  known : D → Finset D
  /-- The pairs of a sender and a receiver with an announcement in flight. -/
  inFlight : Set (D × D)
  /-- How often each node has answered. -/
  answers : D → ℕ

/-- An announcement of `x` to the nodes of `S`. -/
def toAll (x : D) (S : Set D) : Set (D × D) := {p | p.1 = x ∧ p.2 ∈ S}

/-- The steps. In `hear` and `learn`, the announcement may stay in flight or not. -/
inductive Step (loss : Bool) (s : State D) : State D → Prop
  /-- `x` starts. -/
  | start (x : D) (h : x ∉ s.started) :
      Step loss s { s with
        started := insert x s.started
        inFlight := s.inFlight ∪ toAll x (insert x s.started) }
  /-- `x` announces itself unasked. -/
  | announce (x : D) (h : x ∈ s.started) :
      Step loss s { s with inFlight := s.inFlight ∪ toAll x s.started }
  /-- `y` hears of itself, or of a node it knows. -/
  | hear (x y : D) (F : Set (D × D)) (hknown : x = y ∨ x ∈ s.known y)
      (hlo : s.inFlight \ {(x, y)} ⊆ F) (hhi : F ⊆ s.inFlight) :
      Step loss s { s with inFlight := F }
  /-- `y` hears of `x` for the first time, and answers. -/
  | learn (x y : D) (F : Set (D × D)) (h : (x, y) ∈ s.inFlight) (hne : x ≠ y)
      (hnew : x ∉ s.known y) (hlo : s.inFlight \ {(x, y)} ⊆ F) (hhi : F ⊆ s.inFlight) :
      Step loss s { s with
        known := Function.update s.known y (insert x (s.known y))
        inFlight := F ∪ toAll y s.started
        answers := Function.update s.answers y (s.answers y + 1) }
  /-- Announcements are lost. -/
  | lose (F : Set (D × D)) (hloss : loss = true) (hhi : F ⊆ s.inFlight) :
      Step loss s { s with inFlight := F }

variable {loss : Bool} {s s' : State D}

/-! ## What nodes know -/

/-- Only started nodes take part, nobody counts itself, and a node has answered once for each
node it knows. -/
structure Invariant (s : State D) : Prop where
  sender : ∀ p ∈ s.inFlight, p.1 ∈ s.started
  receiver : ∀ p ∈ s.inFlight, p.2 ∈ s.started
  known : ∀ x y, x ∈ s.known y → x ∈ s.started
  irrefl : ∀ y, y ∉ s.known y
  answers : ∀ y, s.answers y = (s.known y).card

omit [DecidableEq D] in
/-- Dropping announcements keeps the invariant. -/
private theorem Invariant.of_subset (hI : Invariant s) {F : Set (D × D)} (hF : F ⊆ s.inFlight) :
    Invariant { s with inFlight := F } :=
  ⟨fun p hp => hI.sender p (hF hp), fun p hp => hI.receiver p (hF hp), hI.known, hI.irrefl,
    hI.answers⟩

theorem Invariant.step (hI : Invariant s) (h : Step loss s s') : Invariant s' := by
  cases h with
  | start x hx =>
    -- what is new in flight goes from the new node to started nodes
    refine ⟨?_, ?_, fun a b hab => Set.mem_insert_of_mem x (hI.known a b hab), hI.irrefl,
      hI.answers⟩
    · rintro p (hp | ⟨rfl, -⟩)
      · exact Set.mem_insert_of_mem x (hI.sender p hp)
      · exact Set.mem_insert _ _
    · rintro p (hp | ⟨-, hp⟩)
      · exact Set.mem_insert_of_mem x (hI.receiver p hp)
      · exact hp
  | announce x hx =>
    refine ⟨?_, ?_, hI.known, hI.irrefl, hI.answers⟩
    · rintro p (hp | ⟨rfl, -⟩)
      · exact hI.sender p hp
      · exact hx
    · rintro p (hp | ⟨-, hp⟩)
      · exact hI.receiver p hp
      · exact hp
  | hear x y F hknown hlo hhi => exact hI.of_subset hhi
  | learn x y F hxy hne hnew hlo hhi =>
    have hx : x ∈ s.started := hI.sender _ hxy
    have hy : y ∈ s.started := hI.receiver _ hxy
    -- only `y` changes what it knows, and it answers as it does so
    refine ⟨?_, ?_, fun a b hab => ?_, fun b => ?_, fun b => ?_⟩
    · rintro p (hp | ⟨rfl, -⟩)
      · exact hI.sender p (hhi hp)
      · exact hy
    · rintro p (hp | ⟨-, hp⟩)
      · exact hI.receiver p (hhi hp)
      · exact hp
    · by_cases hb : b = y
      · subst hb
        simp only [Function.update_self] at hab
        rcases Finset.mem_insert.1 hab with rfl | hab
        · exact hx
        · exact hI.known a b hab
      · simp only [Function.update_of_ne hb] at hab
        exact hI.known a b hab
    · by_cases hb : b = y
      · subst hb
        simp only [Function.update_self, Finset.mem_insert, not_or]
        exact ⟨hne.symm, hI.irrefl b⟩
      · simp only [Function.update_of_ne hb]
        exact hI.irrefl b
    · by_cases hb : b = y
      · subst hb
        simp only [Function.update_self]
        rw [Finset.card_insert_of_notMem hnew, hI.answers b]
      · simp only [Function.update_of_ne hb]
        exact hI.answers b
  | lose F hloss hhi => exact hI.of_subset hhi

/-! ## Convergence -/

/-- Of two started nodes, `x` knows `y`, or an announcement of `y` is on its way to `x`, or `x`
is about to provoke one: an announcement of `x` is on its way to `y`, which does not know it. -/
def Converging (s : State D) : Prop :=
  ∀ x ∈ s.started, ∀ y ∈ s.started, x ≠ y →
    y ∈ s.known x ∨ (y, x) ∈ s.inFlight ∨ (x ∉ s.known y ∧ (x, y) ∈ s.inFlight)

omit [DecidableEq D] in
/-- More announcements in flight keep the property. -/
private theorem Converging.of_superset (hC : Converging s) {F : Set (D × D)}
    (hF : s.inFlight ⊆ F) : Converging { s with inFlight := F } := by
  intro x hx y hy hxy
  rcases hC x hx y hy hxy with hknown | hflight | ⟨hnew, hflight⟩
  · exact Or.inl hknown
  · exact Or.inr (Or.inl (hF hflight))
  · exact Or.inr (Or.inr ⟨hnew, hF hflight⟩)

theorem Converging.step (hI : Invariant s) (hC : Converging s) (h : Step false s s') :
    Converging s' := by
  cases h with
  | start x hx =>
    -- nobody knows the new node, and it has announced itself to everybody
    intro a ha b hb hab
    have hunknown : ∀ c, x ∉ s.known c := fun c hc => hx (hI.known x c hc)
    rcases ha with rfl | ha
    · exact Or.inr (Or.inr ⟨hunknown b, Or.inr ⟨rfl, hb⟩⟩)
    · rcases hb with rfl | hb
      · exact Or.inr (Or.inl (Or.inr ⟨rfl, Set.mem_insert_of_mem _ ha⟩))
      · rcases hC a ha b hb hab with hknown | hflight | ⟨hnew, hflight⟩
        · exact Or.inl hknown
        · exact Or.inr (Or.inl (Or.inl hflight))
        · exact Or.inr (Or.inr ⟨hnew, Or.inl hflight⟩)
  | announce x hx => exact hC.of_superset Set.subset_union_left
  | hear x y F hknown hlo hhi =>
    -- the announcement taken out of flight was of no use: its sender was known
    intro a ha b hb hab
    have hkeep {p : D × D} (hp : p ∈ s.inFlight) (hne : p ≠ (x, y)) : p ∈ F := hlo ⟨hp, hne⟩
    rcases hC a ha b hb hab with hk | hflight | ⟨hnew, hflight⟩
    · exact Or.inl hk
    · by_cases hp : (b, a) = (x, y)
      · obtain ⟨rfl, rfl⟩ := Prod.mk.inj hp
        exact Or.inl (hknown.resolve_left hab.symm)
      · exact Or.inr (Or.inl (hkeep hflight hp))
    · by_cases hp : (a, b) = (x, y)
      · obtain ⟨rfl, rfl⟩ := Prod.mk.inj hp
        exact absurd (hknown.resolve_left hab) hnew
      · exact Or.inr (Or.inr ⟨hnew, hkeep hflight hp⟩)
  | learn x y F hxy hne hnew hlo hhi =>
    intro a ha b hb hab
    have hkeep {p : D × D} (hp : p ∈ s.inFlight) (hpne : p ≠ (x, y)) : p ∈ F ∪ toAll y s.started :=
      Or.inl (hlo ⟨hp, hpne⟩)
    by_cases hpair : (b, a) = (x, y)
    · -- `y` has just learnt of `x`
      obtain ⟨rfl, rfl⟩ := Prod.mk.inj hpair
      refine Or.inl ?_
      simp only [Function.update_self]
      exact Finset.mem_insert_self _ _
    by_cases hpair' : (a, b) = (x, y)
    · -- the answer of `y` is on its way to `x`
      obtain ⟨rfl, rfl⟩ := Prod.mk.inj hpair'
      exact Or.inr (Or.inl (Or.inr ⟨rfl, ha⟩))
    -- any other pair is as before: knowledge only grows, and only `(x, y)` left the flight
    have hmono : ∀ c d, c ∈ s.known d →
        c ∈ Function.update s.known y (insert x (s.known y)) d := by
      intro c d hcd
      by_cases hd : d = y
      · subst hd
        simp only [Function.update_self]
        exact Finset.mem_insert_of_mem hcd
      · simpa only [Function.update_of_ne hd] using hcd
    rcases hC a ha b hb hab with hk | hflight | ⟨hnew', hflight⟩
    · exact Or.inl (hmono b a hk)
    · exact Or.inr (Or.inl (hkeep hflight hpair))
    · refine Or.inr (Or.inr ⟨?_, hkeep hflight hpair'⟩)
      by_cases hby : b = y
      · subst hby
        simp only [Function.update_self, Finset.mem_insert, not_or]
        exact ⟨fun hax => hpair' (by rw [hax]), hnew'⟩
      · simpa only [Function.update_of_ne hby] using hnew'
  | lose F hloss hhi => cases hloss

omit [DecidableEq D] in
/-- With nothing in flight, every started node knows every other. -/
theorem converged (hC : Converging s) (hquiet : s.inFlight = ∅) {x y : D} (hx : x ∈ s.started)
    (hy : y ∈ s.started) (hxy : x ≠ y) : y ∈ s.known x := by
  rcases hC x hx y hy hxy with hknown | hflight | ⟨-, hflight⟩
  · exact hknown
  · rw [hquiet] at hflight
    exact hflight.elim
  · rw [hquiet] at hflight
    exact hflight.elim

/-! ## The number of answers -/

/-- A node answers at most once for each other node. -/
theorem answers_le [Fintype D] (hI : Invariant s) (y : D) : s.answers y ≤ Fintype.card D - 1 := by
  -- each answer is for a node of its own, and never for `y` itself
  have hsub : s.known y ⊆ Finset.univ.erase y := fun x hx =>
    Finset.mem_erase.2 ⟨fun h => hI.irrefl y (h ▸ hx), Finset.mem_univ x⟩
  calc s.answers y = (s.known y).card := hI.answers y
    _ ≤ (Finset.univ.erase y).card := Finset.card_le_card hsub
    _ = Fintype.card D - 1 := by rw [Finset.card_erase_of_mem (Finset.mem_univ y), Finset.card_univ]

theorem sum_answers_le [Fintype D] (hI : Invariant s) :
    ∑ y, s.answers y ≤ Fintype.card D * (Fintype.card D - 1) := by
  calc ∑ y, s.answers y ≤ ∑ _y : D, (Fintype.card D - 1) :=
        Finset.sum_le_sum fun y _ => answers_le hI y
    _ = Fintype.card D * (Fintype.card D - 1) := Finset.sum_const_nat fun _ _ => rfl

end Gossip
