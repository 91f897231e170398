import Mathlib.Data.Finset.Basic
import Mathlib.Data.List.Nodup
import Mathlib.Data.Set.Function

/-!
# Presses and releases

The keys a stream of presses and releases leaves down, in two readings: the set a machine would
keep, inserting a key when it is pressed and erasing it when it is released, and the direction
of the last edge of each key.

* `PressTracker.mem_held_iff`: a key is in the set exactly when its last edge is a press.
* `PressTracker.Faithful`: the keys left down can be told from the names they are passed on under.
* `PressTracker.faithful_prefixes_iff`: for which streams they always can.
-/

namespace PressTracker

variable {K L : Type*}

/-- The edges passed on under names; a key without a name is not passed on. -/
def rename (f : K → Option L) (edges : List (K × Bool)) : List (L × Bool) :=
  edges.filterMap fun edge => (f edge.1).map fun l => (l, edge.2)

/-- Two keys share a name. -/
def Clash (f : K → Option L) (k k' : K) : Prop := k ≠ k' ∧ ∃ l, f k = some l ∧ f k' = some l

theorem rename_append (f : K → Option L) (edges edges' : List (K × Bool)) :
    rename f (edges ++ edges') = rename f edges ++ rename f edges' :=
  List.filterMap_append

/-- The edges of a stream of events, without its first. -/
theorem rename_filterMap_cons {E : Type*} (f : K → Option L) (edge : E → Option (K × Bool)) (ev : E)
    (events : List E) : rename f ((ev :: events).filterMap edge) =
      rename f (edge ev).toList ++ rename f (events.filterMap edge) := by
  rw [← rename_append]
  cases h : edge ev <;> simp [h]

theorem rename_concat_of_none {f : K → Option L} {k : K} (h : f k = none)
    (edges : List (K × Bool)) (b : Bool) : rename f (edges ++ [(k, b)]) = rename f edges := by
  simp [rename, List.filterMap_append, h]

theorem rename_concat_of_some {f : K → Option L} {k : K} {l : L} (h : f k = some l)
    (edges : List (K × Bool)) (b : Bool) :
    rename f (edges ++ [(k, b)]) = rename f edges ++ [(l, b)] := by
  simp [rename, List.filterMap_append, h]

variable [DecidableEq K]

/-- One edge of a key: `true` is a press, `false` a release. -/
def track (down : Finset K) (edge : K × Bool) : Finset K :=
  if edge.2 then insert edge.1 down else down.erase edge.1

/-- The keys left down. -/
def held (edges : List (K × Bool)) : Finset K := edges.foldl track ∅

/-- The direction of the last edge of a key. -/
def last (k : K) (edges : List (K × Bool)) : Option Bool :=
  ((edges.filter fun edge => edge.1 = k).getLast?).map Prod.snd

theorem held_concat (edges : List (K × Bool)) (edge : K × Bool) :
    held (edges ++ [edge]) = track (held edges) edge := by
  rw [held, List.foldl_append]
  rfl

theorem last_concat_self (edges : List (K × Bool)) (k : K) (b : Bool) :
    last k (edges ++ [(k, b)]) = some b := by
  simp [last, List.filter_append]

theorem last_concat_of_ne {k k' : K} (h : k' ≠ k) (edges : List (K × Bool)) (b : Bool) :
    last k (edges ++ [(k', b)]) = last k edges := by
  simp [last, List.filter_append, h]

/-- The last edge of a key is that of the events among which all its edges are. -/
theorem last_filterMap_filter {E : Type*} {edge : E → Option (K × Bool)} {k : K} {q : E → Bool}
    (hq : ∀ ev b, edge ev = some (k, b) → q ev = true) (events : List E) :
    last k ((events.filter q).filterMap edge) = last k (events.filterMap edge) := by
  rw [last, last]
  congr 2
  induction events with
  | nil => rfl
  | cons ev events ih =>
    cases hev : q ev with
    | true =>
      rw [List.filter_cons_of_pos hev]
      cases hedge : edge ev with
      | none => simpa [hedge] using ih
      | some edge' => simp [hedge, List.filter_cons, ih]
    | false =>
      rw [List.filter_cons_of_neg (by simp [hev]), ih]
      cases hedge : edge ev with
      | none => simp [hedge]
      | some edge' =>
        obtain ⟨k', b⟩ := edge'
        have hne : k' ≠ k := by
          rintro rfl
          rw [hq ev b hedge] at hev
          cases hev
        simp [hedge, hne]

/-- A key is down exactly when its last edge is a press. -/
theorem mem_held_iff {k : K} {edges : List (K × Bool)} :
    k ∈ held edges ↔ last k edges = some true := by
  induction edges using List.reverseRecOn with
  | nil => simp [held, last]
  | append_singleton edges edge ih =>
    obtain ⟨k', b⟩ := edge
    rw [held_concat]
    by_cases hk : k' = k
    · subst hk
      rw [last_concat_self]
      cases b <;> simp [track]
    · rw [last_concat_of_ne hk, ← ih]
      cases b <;> simp [track, Ne.symm hk]

/-- Nothing is down exactly when every key with an edge was released last. -/
theorem held_eq_empty_iff {edges : List (K × Bool)} :
    held edges = ∅ ↔ ∀ k, last k edges ≠ some true := by
  simp only [Finset.eq_empty_iff_forall_notMem, mem_held_iff, ne_eq]

/-- The keys left down after one more edge. -/
theorem mem_held_concat {edges : List (K × Bool)} {k k' : K} {b : Bool} :
    k' ∈ held (edges ++ [(k, b)]) ↔ k' = k ∧ b = true ∨ k' ≠ k ∧ k' ∈ held edges := by
  rw [held_concat, track]
  cases b with
  | true => by_cases hk : k' = k <;> simp [hk]
  | false => simp

/-! ## Names -/

section Names

variable [DecidableEq L] {f : K → Option L} {edges : List (K × Bool)} {k : K}

/-- The names left down are those of the keys left down, and no two of these keys share one. -/
structure Faithful (f : K → Option L) (edges : List (K × Bool)) : Prop where
  mem_held_rename_iff : ∀ l, l ∈ held (rename f edges) ↔ ∃ k ∈ held edges, f k = some l
  injective : ∀ k ∈ held edges, ∀ k' ∈ held edges, ∀ l, f k = some l → f k' = some l → k = k'

theorem faithful_nil : Faithful f [] := ⟨by simp [held, rename], by simp [held]⟩

/-- The names left down after an edge whose key shares none with another key that is down. -/
private theorem Faithful.mem_held_rename_concat (h : Faithful f edges) {b : Bool}
    (hclash : ∀ k' ∈ held edges, ¬ Clash f k k') (l : L) :
    l ∈ held (rename f (edges ++ [(k, b)])) ↔
      ∃ k' ∈ held (edges ++ [(k, b)]), f k' = some l := by
  cases hk : f k with
  | none =>
    rw [rename_concat_of_none hk, h.mem_held_rename_iff]
    apply exists_congr
    intro k'
    apply and_congr_left
    intro hl
    have hne : k' ≠ k := by
      rintro rfl
      rw [hk] at hl
      cases hl
    rw [mem_held_concat, or_iff_right fun heq => hne heq.1, and_iff_right hne]
  | some l₀ =>
    rw [rename_concat_of_some hk, mem_held_concat]
    by_cases hl : l = l₀
    · -- the name of this key, which no other key that is down has
      subst hl
      rw [or_iff_left fun hne => hne.1 rfl, and_iff_right rfl]
      constructor
      · exact fun hb => ⟨k, mem_held_concat.2 (Or.inl ⟨rfl, hb⟩), hk⟩
      · rintro ⟨k', hk', hl'⟩
        rcases mem_held_concat.1 hk' with ⟨-, hb⟩ | ⟨hne, hk'⟩
        · exact hb
        · exact absurd ⟨hne.symm, l, hk, hl'⟩ (hclash k' hk')
    · rw [or_iff_right fun heq => hl heq.1, and_iff_right hl, h.mem_held_rename_iff]
      apply exists_congr
      intro k'
      apply and_congr_left
      intro hl'
      have hne : k' ≠ k := by
        rintro rfl
        exact hl (Option.some.inj (hl'.symm.trans hk))
      rw [mem_held_concat, or_iff_right fun heq => hne heq.1, and_iff_right hne]

/-- One more edge can be told from the names if and only if its key shares none with another key
that is down. -/
theorem Faithful.concat_iff (h : Faithful f edges) (b : Bool) :
    Faithful f (edges ++ [(k, b)]) ↔ ∀ k' ∈ held edges, ¬ Clash f k k' := by
  constructor
  · rintro hafter k' hk' ⟨hne, l, hl, hl'⟩
    have hk'after : k' ∈ held (edges ++ [(k, b)]) := mem_held_concat.2 (Or.inr ⟨hne.symm, hk'⟩)
    cases b with
    | true =>
      -- both are down, under one name
      exact hne (hafter.injective k (mem_held_concat.2 (Or.inl ⟨rfl, rfl⟩)) k' hk'after l hl hl')
    | false =>
      -- the release of the one releases the other
      have hdown := (hafter.mem_held_rename_iff l).2 ⟨k', hk'after, hl'⟩
      rw [rename_concat_of_some hl, mem_held_concat] at hdown
      simp at hdown
  · intro hclash
    refine ⟨h.mem_held_rename_concat hclash, fun k₁ h₁ k₂ h₂ l hl₁ hl₂ => ?_⟩
    rcases mem_held_concat.1 h₁ with ⟨rfl, -⟩ | ⟨hne₁, hdown₁⟩
    · rcases mem_held_concat.1 h₂ with ⟨rfl, -⟩ | ⟨hne₂, hdown₂⟩
      · rfl
      · exact absurd ⟨hne₂.symm, l, hl₁, hl₂⟩ (hclash k₂ hdown₂)
    · rcases mem_held_concat.1 h₂ with ⟨rfl, -⟩ | ⟨hne₂, hdown₂⟩
      · exact absurd ⟨hne₁.symm, l, hl₂, hl₁⟩ (hclash k₁ hdown₁)
      · exact h.injective k₁ hdown₁ k₂ hdown₂ l hl₁ hl₂

/-- In a stream of events, of which some are edges, the keys down can be told from the names after
every event if and only if no edge is of a key that shares its name with another one that is
down. -/
theorem faithful_prefixes_iff {E : Type*} {edge : E → Option (K × Bool)} {events : List E} :
    (∀ pre, pre <+: events → Faithful f (pre.filterMap edge)) ↔
      ∀ pre ev k b, pre ++ [ev] <+: events → edge ev = some (k, b) →
        ∀ k' ∈ held (pre.filterMap edge), ¬ Clash f k k' := by
  have hconcat : ∀ pre ev k b, edge ev = some (k, b) →
      (pre ++ [ev]).filterMap edge = pre.filterMap edge ++ [(k, b)] := by
    intro pre ev k b hev
    simp [List.filterMap_append, hev]
  constructor
  · intro hall pre ev k b hpre hev
    have hbefore := hall pre ((List.prefix_append _ _).trans hpre)
    have hafter := hall (pre ++ [ev]) hpre
    rw [hconcat pre ev k b hev] at hafter
    exact (hbefore.concat_iff b).1 hafter
  · intro hclash pre
    induction pre using List.reverseRecOn with
    | nil => exact fun _ => faithful_nil
    | append_singleton pre ev ih =>
      intro hpre
      have hbefore := ih ((List.prefix_append _ _).trans hpre)
      cases hev : edge ev with
      | none => rwa [List.filterMap_append, List.filterMap_cons_none hev, List.filterMap_nil,
          List.append_nil]
      | some edge' =>
        rw [hconcat pre ev edge'.1 edge'.2 hev]
        exact (hbefore.concat_iff edge'.2).2 (hclash pre ev _ _ hpre hev)

/-- Keys without a common name can always be told from their names. -/
theorem faithful_of_injective (hf : ∀ k k' l, f k = some l → f k' = some l → k = k')
    (edges : List (K × Bool)) : Faithful f edges := by
  have hall : ∀ pre, pre <+: edges → Faithful f (pre.filterMap some) := by
    apply faithful_prefixes_iff.2
    intro pre ev k b _ _ k' _ hclash
    obtain ⟨hne, l, hl, hl'⟩ := hclash
    exact hne (hf k k' l hl hl')
  have hedges := hall edges List.prefix_rfl
  rwa [List.filterMap_some] at hedges

/-- So the name of a key is down exactly when the last edge of this key is a press. -/
theorem mem_held_rename_of_injective (hf : ∀ k k' l, f k = some l → f k' = some l → k = k') {l : L}
    (hk : f k = some l) : l ∈ held (rename f edges) ↔ last k edges = some true := by
  rw [(faithful_of_injective hf edges).mem_held_rename_iff, ← mem_held_iff]
  constructor
  · rintro ⟨k', hk', hl⟩
    rwa [hf k k' l hk hl]
  · exact fun hdown => ⟨k, hdown, hk⟩

end Names

/-! ## Names from a table -/

/-- What is found in a table is one of its pairs. -/
theorem mem_of_lookup {table : List (K × L)} {k : K} {l : L} (h : table.lookup k = some l) :
    (k, l) ∈ table := by
  obtain ⟨before, after, hsplit, -⟩ := List.lookup_eq_some_iff.1 h
  exact hsplit ▸ List.mem_append_right _ List.mem_cons_self

/-- Names that are looked up in a table in which none occurs twice are not shared. -/
theorem lookup_injective {table : List (K × L)} (h : (table.map Prod.snd).Nodup) {k k' : K} {l : L}
    (hk : table.lookup k = some l) (hk' : table.lookup k' = some l) : k = k' :=
  congrArg Prod.fst (List.inj_on_of_nodup_map h (mem_of_lookup hk) (mem_of_lookup hk') rfl)

end PressTracker
