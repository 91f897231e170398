import Mathlib.Algebra.BigOperators.Group.List.Basic
import Mathlib.Data.List.Perm.Basic

/-!
# Items in transit

Items handed over one after the other, each on a way of its own, that arrive or are lost one by
one. An item is given up at once if there is no way to take.

* `Transit.Accounted`: every item is in one place.
* `Transit.Ordered`: on one way, items arrive in the order in which they were handed over. Kept as
  long as it is always the first item of a way that arrives.
* `Transit.Ordered.arrived_filter`: of the items that take one way, those of a kind of which none
  is on its way or lost have arrived as they were handed over.
-/

/-- Items handed over, with the way `C` each takes. -/
structure Transit (C α : Type*) where
  /-- The items handed over, oldest first, with their way if there was one. -/
  accepted : List (Option C × α)
  inFlight : List (C × α)
  arrived : List (C × α)
  lost : List (C × α)
deriving DecidableEq, Repr

namespace Transit

open scoped List

variable {C α : Type*}

/-- Nothing was handed over. -/
def empty : Transit C α := ⟨[], [], [], []⟩

/-- An item is handed over. -/
def accept (t : Transit C α) (way : Option C) (a : α) : Transit C α :=
  { t with
    accepted := t.accepted ++ [(way, a)]
    inFlight := t.inFlight ++ (way.map fun c => (c, a)).toList }

/-- The first item of a kind arrives. -/
def arrive (t : Transit C α) (p : C × α → Bool) : Option (α × Transit C α) :=
  (t.inFlight.find? p).map fun x =>
    (x.2, { t with inFlight := t.inFlight.eraseP p, arrived := t.arrived ++ [x] })

/-- The first item of a kind is lost. -/
def lose (t : Transit C α) (p : C × α → Bool) : Option (Transit C α) :=
  (t.inFlight.find? p).map fun x =>
    { t with inFlight := t.inFlight.eraseP p, lost := t.lost ++ [x] }

/-- The items that took a way. -/
def carried (t : Transit C α) : List (C × α) :=
  t.accepted.filterMap fun x => x.1.map fun c => (c, x.2)

/-- The items given up at once. -/
def discarded (t : Transit C α) : List α :=
  t.accepted.filterMap fun x => if x.1.isNone then some x.2 else none

/-- The items in another form. -/
def map {β : Type*} (f : α → β) (t : Transit C α) : Transit C β where
  accepted := t.accepted.map (Prod.map id f)
  inFlight := t.inFlight.map (Prod.map id f)
  arrived := t.arrived.map (Prod.map id f)
  lost := t.lost.map (Prod.map id f)

section Ways

variable [DecidableEq C]

/-- The items of one way. -/
def on (c : C) (items : List (C × α)) : List α := (items.filter fun x => x.1 = c).map Prod.snd

/-- The first item of a way. -/
def next (c : C) (x : C × α) : Bool := x.1 = c

@[simp]
theorem on_append (c : C) (items items' : List (C × α)) :
    on c (items ++ items') = on c items ++ on c items' := by
  simp [on]

end Ways

/-! ## Another form -/

section Map

variable {β : Type*} (f : α → β) (t : Transit C α)

theorem map_accept (way : Option C) (a : α) :
    (t.accept way a).map f = (t.map f).accept way (f a) := by
  cases way <;> simp [map, accept]

theorem map_arrive (p : C × β → Bool) : (t.map f).arrive p =
    (t.arrive (p ∘ Prod.map id f)).map (Prod.map f (map f)) := by
  simp only [arrive, map, List.find?_map, Option.map_map]
  congr 1
  funext x
  simp [map, List.eraseP_map]

theorem map_lose (p : C × β → Bool) :
    (t.map f).lose p = (t.lose (p ∘ Prod.map id f)).map (map f) := by
  simp only [lose, map, List.find?_map, Option.map_map]
  congr 1
  funext x
  simp [map, List.eraseP_map]

theorem map_discarded : (t.map f).discarded = t.discarded.map f := by
  simp only [discarded, map, List.filterMap_map, List.map_filterMap]
  congr 1
  funext x
  obtain ⟨way, a⟩ := x
  cases way <;> rfl

theorem map_on [DecidableEq C] (c : C) (items : List (C × α)) :
    on c (items.map (Prod.map id f)) = (on c items).map f := by
  rw [on, on, List.filter_map, List.map_map, List.map_map]
  rfl

end Map

/-! ## The account -/

/-- Every item that took a way is on its way, has arrived or is lost. -/
def Accounted (t : Transit C α) : Prop := t.arrived ++ t.inFlight ++ t.lost ~ t.carried

variable {t t' : Transit C α} {p : C × α → Bool} {way : Option C} {a : α}

theorem carried_accept (t : Transit C α) (way : Option C) (a : α) :
    (t.accept way a).carried = t.carried ++ (way.map fun c => (c, a)).toList := by
  rw [carried, accept, List.filterMap_append]
  cases way <;> rfl

/-- An item without a way is given up. -/
theorem discarded_accept (t : Transit C α) (way : Option C) (a : α) :
    (t.accept way a).discarded = t.discarded ++ if way.isNone then [a] else [] := by
  rw [discarded, accept, List.filterMap_append]
  cases way <;> rfl

/-- An item that arrives is taken from those in flight. -/
theorem arrive_cases (h : t.arrive p = some (a, t')) : ∃ c before after, p (c, a) = true ∧
    (∀ x ∈ before, p x = false) ∧ t.inFlight = before ++ (c, a) :: after ∧
    t' = { t with inFlight := before ++ after, arrived := t.arrived ++ [(c, a)] } := by
  obtain ⟨⟨c, b⟩, hfind, heq⟩ := Option.map_eq_some_iff.1 h
  obtain ⟨rfl, rfl⟩ := Prod.mk.inj heq
  obtain ⟨hp, before, after, hsplit, hbefore⟩ := List.find?_eq_some_iff_append.1 hfind
  have hnone : ∀ x ∈ before, p x = false := fun x hx => by simpa using hbefore x hx
  refine ⟨c, before, after, hp, hnone, hsplit, ?_⟩
  rw [hsplit, List.eraseP_append_right _ fun x hx => by simp [hnone x hx],
    List.eraseP_cons_of_pos hp]

/-- As long as there is an item of a kind, one can arrive. -/
theorem arrive_of_mem {x : C × α} (hx : x ∈ t.inFlight) (hp : p x = true) :
    ∃ a t', t.arrive p = some (a, t') := by
  obtain ⟨y, hy⟩ := Option.isSome_iff_exists.1 (List.find?_isSome.2 ⟨x, hx, hp⟩)
  exact ⟨_, _, Option.map_eq_some_iff.2 ⟨y, hy, rfl⟩⟩

/-- An item that is lost is taken from those in flight. -/
theorem lose_cases (h : t.lose p = some t') : ∃ x before after, p x = true ∧
    t.inFlight = before ++ x :: after ∧
    t' = { t with inFlight := before ++ after, lost := t.lost ++ [x] } := by
  obtain ⟨x, hfind, rfl⟩ := Option.map_eq_some_iff.1 h
  obtain ⟨hp, before, after, hsplit, hbefore⟩ := List.find?_eq_some_iff_append.1 hfind
  have hnone : ∀ y ∈ before, ¬ p y = true := fun y hy => by simpa using hbefore y hy
  refine ⟨x, before, after, hp, hsplit, ?_⟩
  rw [hsplit, List.eraseP_append_right _ hnone, List.eraseP_cons_of_pos hp]

theorem length_lost_of_lose (h : t.lose p = some t') :
    t'.lost.length = t.lost.length + 1 ∧ t'.discarded = t.discarded := by
  obtain ⟨x, before, after, -, -, rfl⟩ := lose_cases h
  exact ⟨List.length_append, rfl⟩

theorem Accounted.empty : Accounted (empty : Transit C α) := List.Perm.refl _

theorem Accounted.accept (h : t.Accounted) (way : Option C) (a : α) :
    (t.accept way a).Accounted := by
  rw [Accounted, carried_accept]
  -- the new item moves behind those that are lost
  have hmove : t.arrived ++ (t.inFlight ++ (way.map fun c => (c, a)).toList) ++ t.lost ~
      t.arrived ++ t.inFlight ++ t.lost ++ (way.map fun c => (c, a)).toList := by
    simp only [List.append_assoc]
    exact (List.perm_append_comm.append_left _).append_left _
  exact hmove.trans (h.append_right _)

theorem Accounted.arrive (h : t.Accounted) (harrive : t.arrive p = some (a, t')) :
    t'.Accounted := by
  obtain ⟨c, before, after, -, -, hsplit, rfl⟩ := arrive_cases harrive
  rw [Accounted, hsplit] at h
  -- the item moves from the middle of those in flight to the end of those that have arrived
  refine List.Perm.trans ?_ h
  simp only [List.append_assoc, List.cons_append, List.nil_append]
  exact List.perm_middle.symm.append_left _

theorem Accounted.lose (h : t.Accounted) (hlose : t.lose p = some t') : t'.Accounted := by
  obtain ⟨x, before, after, -, hsplit, rfl⟩ := lose_cases hlose
  rw [Accounted, hsplit] at h
  refine List.Perm.trans ?_ h
  have hlast : t.lost ++ [x] ~ x :: t.lost := List.perm_append_singleton x _
  simp only [List.append_assoc, List.cons_append]
  refine List.Perm.append_left _ (List.Perm.append_left _ ?_)
  exact (hlast.append_left _).trans List.perm_middle

/-- Every item handed over is in one place. -/
theorem Accounted.perm (h : t.Accounted) :
    t.arrived.map Prod.snd ++ t.inFlight.map Prod.snd ++ t.lost.map Prod.snd ++ t.discarded ~
      t.accepted.map Prod.snd := by
  -- by their way, the items split into those that took one and those given up
  have hsplit : ∀ accepted : List (Option C × α),
      (accepted.filterMap fun x => x.1.map fun c => (c, x.2)).map Prod.snd ++
        (accepted.filterMap fun x => if x.1.isNone then some x.2 else none) ~
      accepted.map Prod.snd := by
    intro accepted
    induction accepted with
    | nil => exact List.Perm.refl _
    | cons x accepted ih =>
      obtain ⟨way, a⟩ := x
      cases way with
      | none =>
        simp only [List.filterMap_cons, Option.map_none, Option.isNone_none, if_true, List.map_cons]
        exact List.perm_middle.trans (ih.cons a)
      | some c =>
        simp only [List.filterMap_cons, Option.map_some, Option.isNone_some, Bool.false_eq_true,
          if_false, List.map_cons, List.cons_append]
        exact ih.cons a
  have hcarried := h.map Prod.snd
  rw [List.map_append, List.map_append] at hcarried
  exact (hcarried.append_right _).trans (hsplit t.accepted)

/-- A sum over the items handed over is the sum over all places. -/
theorem Accounted.sum {M : Type*} [AddCommMonoid M] (h : t.Accounted) (f : α → M) :
    ((t.arrived.map Prod.snd).map f).sum + ((t.inFlight.map Prod.snd).map f).sum +
      ((t.lost.map Prod.snd).map f).sum + (t.discarded.map f).sum =
      ((t.accepted.map Prod.snd).map f).sum := by
  rw [← (h.perm.map f).sum_eq]
  simp only [List.map_append, List.sum_append]

/-! ## The order -/

section Order

variable [DecidableEq C] {c : C}

/-- On every way, what has arrived and what is to come is in the order in which it was handed
over. -/
def Ordered (t : Transit C α) : Prop :=
  ∀ c, (on c t.arrived ++ on c t.inFlight).Sublist (on c t.carried)

theorem Ordered.empty : Ordered (empty : Transit C α) := fun _ => List.Sublist.refl _

theorem Ordered.accept (h : t.Ordered) (way : Option C) (a : α) : (t.accept way a).Ordered := by
  intro c
  rw [carried_accept, Transit.accept, on_append, on_append, ← List.append_assoc]
  exact (h c).append (List.Sublist.refl _)

/-- The first item of a way may arrive. -/
theorem Ordered.arrive (h : t.Ordered) (harrive : t.arrive (next c) = some (a, t')) :
    t'.Ordered := by
  obtain ⟨c', before, after, hc, hbefore, hsplit, rfl⟩ := arrive_cases harrive
  obtain rfl : c' = c := of_decide_eq_true hc
  intro d
  have hd := h d
  rw [hsplit, on_append, ← List.singleton_append, on_append] at hd
  show (on d (t.arrived ++ [(c', a)]) ++ on d (before ++ after)).Sublist (on d t.carried)
  rw [on_append, on_append]
  by_cases hdc : c' = d
  · -- nothing of this way was before it
    have hnone : on d before = [] := by
      rw [on, List.map_eq_nil_iff, List.filter_eq_nil_iff]
      intro x hx hxd
      have hxc : ¬ x.1 = c' := by simpa [next] using hbefore x hx
      exact hxc ((of_decide_eq_true hxd).trans hdc.symm)
    rw [hnone, List.nil_append] at hd ⊢
    rwa [List.append_assoc]
  · -- on the other ways nothing has changed
    have hother : on d [(c', a)] = [] := by simp [on, hdc]
    rw [hother, List.nil_append] at hd
    rwa [hother, List.append_nil]

theorem Ordered.lose (h : t.Ordered) (hlose : t.lose p = some t') : t'.Ordered := by
  obtain ⟨x, before, after, -, hsplit, rfl⟩ := lose_cases hlose
  intro d
  -- a way that is one item shorter is still in order
  refine List.Sublist.trans (List.Sublist.append_left ?_ _) (h d)
  show (on d (before ++ after)).Sublist (on d t.inFlight)
  rw [hsplit]
  refine (List.Sublist.filter _ ?_).map _
  exact (List.sublist_cons_self x after).append_left before

/-- What took a way was handed over. -/
theorem on_carried_sublist (t : Transit C α) (c : C) :
    (on c t.carried).Sublist (t.accepted.map Prod.snd) := by
  have hcarried : (t.carried.map Prod.snd).Sublist (t.accepted.map Prod.snd) := by
    rw [carried]
    induction t.accepted with
    | nil => exact List.Sublist.refl _
    | cons x accepted ih =>
      obtain ⟨way, a⟩ := x
      cases way with
      | none => exact ih.cons _
      | some c => exact ih.cons_cons _
  exact (List.filter_sublist.map _).trans hcarried

/-- What has arrived on a way was handed over in this order. -/
theorem Ordered.sublist (h : t.Ordered) (c : C) :
    (on c t.arrived).Sublist (t.accepted.map Prod.snd) :=
  ((List.sublist_append_left _ _).trans (h c)).trans (t.on_carried_sublist c)

/-- If all items of a kind take one way, and none of them is on its way or lost, then they have
arrived as they were handed over. -/
theorem Ordered.arrived_filter (h : t.Ordered) (hacc : t.Accounted) {q : α → Bool}
    (hway : ∀ x ∈ t.accepted, q x.2 = true → x.1 = some c)
    (hkept : ∀ x ∈ t.inFlight ++ t.lost, q x.2 = false) :
    (t.arrived.map Prod.snd).filter q = (t.accepted.map Prod.snd).filter q := by
  -- no item of the kind is anywhere else
  have hlost : ((t.inFlight ++ t.lost).map Prod.snd).filter q = [] := by
    rw [List.filter_eq_nil_iff]
    rintro _ ha hq
    obtain ⟨x, hx, rfl⟩ := List.mem_map.1 ha
    rw [hkept x hx] at hq
    cases hq
  have hdiscarded : t.discarded.filter q = [] := by
    rw [List.filter_eq_nil_iff]
    intro a ha hq
    obtain ⟨x, hx, hxa⟩ := List.mem_filterMap.1 ha
    obtain ⟨hnone, hxa⟩ := Option.ite_none_right_eq_some.1 hxa
    obtain rfl := Option.some.inj hxa
    rw [hway x hx hq] at hnone
    cases hnone
  -- as many have arrived as were handed over
  have hperm : (t.arrived.map Prod.snd).filter q ~ (t.accepted.map Prod.snd).filter q := by
    have hall := hacc.perm.filter q
    rwa [List.append_assoc (t.arrived.map Prod.snd), ← List.map_append, List.filter_append,
      List.filter_append, hlost, hdiscarded, List.append_nil, List.append_nil] at hall
  -- and all on this way
  have hon : (t.arrived.map Prod.snd).filter q = (on c t.arrived).filter q := by
    rw [on, List.filter_map, List.filter_map, List.filter_filter]
    refine congrArg (List.map Prod.snd) (List.filter_congr fun x hx => ?_)
    cases hq : q x.2 with
    | false => simp [hq]
    | true =>
      have hcarried : x ∈ t.carried :=
        hacc.subset (List.mem_append_left _ (List.mem_append_left _ hx))
      obtain ⟨⟨way, a⟩, haccepted, hx⟩ := List.mem_filterMap.1 hcarried
      obtain ⟨c', hc', rfl⟩ := Option.map_eq_some_iff.1 hx
      have hc : way = some c := hway _ haccepted hq
      obtain rfl := Option.some.inj (hc'.symm.trans hc)
      simp [show q a = true from hq]
  -- a sublist that is as long as the whole list is the list
  refine List.Sublist.eq_of_length ?_ hperm.length_eq
  rw [hon]
  exact (h.sublist c).filter q

end Order

end Transit
