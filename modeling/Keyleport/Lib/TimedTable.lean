import Mathlib.Data.List.Induction
import Mathlib.Data.List.Nodup

/-!
# Tables of timed values

A table of values with the time each was last written, at most one for each key. Values are
upserted, removed by key, and expired by a test of their time. A table is compared with the log
of what was written to it: its entries are the latest writes of their keys.

* `TimedTable.mem_upsert`, `TimedTable.mem_remove`, `TimedTable.mem_expire`: the entries after
  each operation.
* `TimedTable.Tracks.upsert`, `TimedTable.Tracks.remove`, `TimedTable.Tracks.expire`: a table
  that holds latest writes only still does after each operation.
* `TimedTable.Covers`: a table that holds every latest write that is live and not dropped.
* `TimedTable.mem_replay_congr`: writes at one time commute unless they are of one key.
-/

/-- A list of timed values in which no key occurs twice. -/
structure TimedTable {V K : Type*} (key : V → K) (T : Type*) where
  entries : List (V × T)
  nodup : (entries.map fun e => key e.1).Nodup

namespace TimedTable

variable {V K T : Type*} {key : V → K}

/-- The empty table. -/
def empty : TimedTable key T := ⟨[], List.nodup_nil⟩

/-- Whether a key has an entry. -/
def HasKey (table : TimedTable key T) (k : K) : Prop := ∃ e ∈ table.entries, key e.1 = k

/-- No value of `f` occurs twice in the table if and only if `f` is injective on its entries. -/
theorem nodup_map_iff {β : Type*} {f : V → β} {table : TimedTable key T} :
    (table.entries.map fun e => f e.1).Nodup ↔
      ∀ e ∈ table.entries, ∀ e' ∈ table.entries, f e.1 = f e'.1 → e = e' :=
  List.nodup_map_iff_inj_on table.nodup.of_map

/-- Tables with the same entries list them in some order. -/
theorem entries_perm {table table' : TimedTable key T}
    (h : ∀ e, e ∈ table.entries ↔ e ∈ table'.entries) : table.entries.Perm table'.entries :=
  (List.perm_ext_iff_of_nodup table.nodup.of_map table'.nodup.of_map).2 h

/-! ## Expiry -/

/-- Drop the entries with a stale time. -/
def expire (table : TimedTable key T) (stale : T → Bool) : TimedTable key T where
  entries := table.entries.filter fun e => !stale e.2
  nodup := table.nodup.sublist (List.filter_sublist.map _)

theorem mem_expire {table : TimedTable key T} {stale : T → Bool} {e : V × T} :
    e ∈ (table.expire stale).entries ↔ e ∈ table.entries ∧ stale e.2 = false := by
  simp [expire]

/-- Without stale times nothing expires. -/
theorem expire_eq_self {table : TimedTable key T} {stale : T → Bool}
    (h : ∀ e ∈ table.entries, stale e.2 = false) : table.expire stale = table := by
  have hentries : table.entries.filter (fun e => !stale e.2) = table.entries :=
    List.filter_eq_self.2 fun e he => by simp [h e he]
  cases table
  simpa [expire] using hentries

variable [DecidableEq K]

/-- The entry with a key, if there is one. -/
theorem find?_eq_some_iff {table : TimedTable key T} {k : K} {e : V × T} :
    (table.entries.find? fun e => key e.1 = k) = some e ↔ e ∈ table.entries ∧ key e.1 = k := by
  constructor
  · intro h
    exact ⟨List.mem_of_find?_eq_some h, of_decide_eq_true (List.find?_some h :)⟩
  · rintro ⟨he, hk⟩
    cases hfind : table.entries.find? fun e => key e.1 = k with
    | none => exact absurd (decide_eq_true hk) (List.find?_eq_none.1 hfind e he)
    | some e' =>
      -- no other entry has the key
      have hk' : key e'.1 = k := of_decide_eq_true (List.find?_some hfind :)
      rw [List.inj_on_of_nodup_map table.nodup (List.mem_of_find?_eq_some hfind) he
        (hk'.trans hk.symm)]

/-! ## Removal -/

/-- Remove the entry with a key. -/
def remove (table : TimedTable key T) (k : K) : TimedTable key T where
  entries := table.entries.eraseP fun e => key e.1 = k
  nodup := table.nodup.sublist (List.eraseP_sublist.map _)

theorem mem_remove {table : TimedTable key T} {k : K} {e : V × T} :
    e ∈ (table.remove k).entries ↔ e ∈ table.entries ∧ key e.1 ≠ k := by
  obtain ⟨es, hes⟩ := table
  simp only [remove]
  induction es with
  | nil => simp
  | cons a es ih =>
    rw [List.map_cons, List.nodup_cons] at hes
    by_cases ha : key a.1 = k
    · -- the head is erased, and by uniqueness no other entry has the key
      rw [List.eraseP_cons_of_pos (by simpa using ha), List.mem_cons]
      constructor
      · intro he
        refine ⟨Or.inr he, fun hek => hes.1 (List.mem_map.2 ⟨e, he, hek.trans ha.symm⟩)⟩
      · rintro ⟨rfl | he, hne⟩
        · exact absurd ha hne
        · exact he
    · rw [List.eraseP_cons_of_neg (by simpa using ha), List.mem_cons, List.mem_cons, ih hes.2]
      constructor
      · rintro (rfl | ⟨he, hne⟩)
        · exact ⟨Or.inl rfl, ha⟩
        · exact ⟨Or.inr he, hne⟩
      · rintro ⟨rfl | he, hne⟩
        · exact Or.inl rfl
        · exact Or.inr ⟨he, hne⟩

/-! ## Upsertion -/

/-- Replace the entry with the key of `v`, or append one. -/
def upsertEntries (key : V → K) (v : V) (t : T) : List (V × T) → List (V × T)
  | [] => [(v, t)]
  | e :: es => if key e.1 = key v then (v, t) :: es else e :: upsertEntries key v t es

/-- The list operation by index: a search, and then an assignment or an append. -/
theorem upsertEntries_eq (v : V) (t : T) (es : List (V × T)) :
    upsertEntries key v t es =
      match es.findIdx? fun e => key e.1 = key v with
      | some i => es.set i (v, t)
      | none => es ++ [(v, t)] := by
  induction es with
  | nil => rfl
  | cons e es ih =>
    rw [upsertEntries, List.findIdx?_cons]
    by_cases he : key e.1 = key v
    · simp [he]
    · rw [if_neg he, ih]
      cases h : es.findIdx? fun e => key e.1 = key v <;> simp [he]

private theorem mem_of_mem_upsertEntries {v : V} {t : T} {es : List (V × T)} {e : V × T}
    (h : e ∈ upsertEntries key v t es) : e = (v, t) ∨ e ∈ es := by
  induction es with
  | nil => exact Or.inl (List.mem_singleton.1 h)
  | cons a es ih =>
    rw [upsertEntries] at h
    split at h
    · rcases List.mem_cons.1 h with rfl | he
      · exact Or.inl rfl
      · exact Or.inr (List.mem_cons_of_mem _ he)
    · rcases List.mem_cons.1 h with rfl | he
      · exact Or.inr List.mem_cons_self
      · exact (ih he).imp_right (List.mem_cons_of_mem _)

/-- Insert or replace the value with the key of `v`. -/
def upsert (table : TimedTable key T) (v : V) (t : T) : TimedTable key T where
  entries := upsertEntries key v t table.entries
  nodup := by
    obtain ⟨es, hes⟩ := table
    simp only
    induction es with
    | nil => simp [upsertEntries]
    | cons a es ih =>
      rw [List.map_cons, List.nodup_cons] at hes
      rw [upsertEntries]
      split
      next ha =>
        rw [List.map_cons, List.nodup_cons, ← ha]
        exact hes
      next ha =>
        -- the rest gains at most the key of `v`, which the head does not have
        rw [List.map_cons, List.nodup_cons]
        refine ⟨fun hmem => ?_, ih hes.2⟩
        obtain ⟨e, he, hea⟩ := List.mem_map.1 hmem
        rcases mem_of_mem_upsertEntries he with rfl | he
        · exact ha hea.symm
        · exact hes.1 (List.mem_map.2 ⟨e, he, hea⟩)

theorem mem_upsert {table : TimedTable key T} {v : V} {t : T} {e : V × T} :
    e ∈ (table.upsert v t).entries ↔ e = (v, t) ∨ e ∈ table.entries ∧ key e.1 ≠ key v := by
  obtain ⟨es, hes⟩ := table
  simp only [upsert]
  induction es with
  | nil => simp [upsertEntries]
  | cons a es ih =>
    rw [List.map_cons, List.nodup_cons] at hes
    rw [upsertEntries]
    split
    next ha =>
      -- the head is replaced, and by uniqueness no other entry has the key
      rw [List.mem_cons, List.mem_cons]
      refine or_congr_right ⟨fun he => ⟨Or.inr he, fun hek => ?_⟩, ?_⟩
      · exact hes.1 (List.mem_map.2 ⟨e, he, hek.trans ha.symm⟩)
      · rintro ⟨rfl | he, hne⟩
        · exact absurd ha hne
        · exact he
    next ha =>
      rw [List.mem_cons, List.mem_cons, ih hes.2]
      constructor
      · rintro (rfl | rfl | ⟨he, hne⟩)
        · exact Or.inr ⟨Or.inl rfl, ha⟩
        · exact Or.inl rfl
        · exact Or.inr ⟨Or.inr he, hne⟩
      · rintro (rfl | ⟨rfl | he, hne⟩)
        · exact Or.inr (Or.inl rfl)
        · exact Or.inl rfl
        · exact Or.inr (Or.inr ⟨he, hne⟩)

/-- Writing an entry again changes nothing. -/
theorem upsert_eq_self {table : TimedTable key T} {v : V} {t : T} (h : (v, t) ∈ table.entries) :
    table.upsert v t = table := by
  obtain ⟨es, hes⟩ := table
  simp only [upsert, TimedTable.mk.injEq]
  simp only at h
  induction es with
  | nil => cases h
  | cons a es ih =>
    rw [List.map_cons, List.nodup_cons] at hes
    rw [upsertEntries]
    rcases List.mem_cons.1 h with rfl | h
    · rw [if_pos rfl]
    · -- the entry comes later, so the head has another key
      have hne : key a.1 ≠ key v := fun heq => hes.1 (List.mem_map.2 ⟨(v, t), h, heq.symm⟩)
      rw [if_neg hne, ih hes.2 h]

/-- The keys after an upsertion. -/
theorem hasKey_upsert {table : TimedTable key T} {v : V} {t : T} {k : K} :
    (table.upsert v t).HasKey k ↔ k = key v ∨ table.HasKey k := by
  constructor
  · rintro ⟨e, he, rfl⟩
    rcases mem_upsert.1 he with rfl | ⟨he, -⟩
    · exact Or.inl rfl
    · exact Or.inr ⟨e, he, rfl⟩
  · intro h
    by_cases hk : k = key v
    · exact ⟨(v, t), mem_upsert.2 (Or.inl rfl), hk.symm⟩
    · obtain ⟨e, he, rfl⟩ := h.resolve_left hk
      exact ⟨e, mem_upsert.2 (Or.inr ⟨he, hk⟩), rfl⟩

/-! ## Latest writes -/

/-- The last entry of a log with a key. -/
def latest (key : V → K) (log : List (V × T)) (k : K) : Option (V × T) :=
  (log.filter fun e => key e.1 = k).getLast?

theorem latest_concat_self (log : List (V × T)) (v : V) (t : T) :
    latest key (log ++ [(v, t)]) (key v) = some (v, t) := by
  simp [latest, List.filter_append]

theorem latest_concat_of_ne {k : K} {v : V} (h : key v ≠ k) (log : List (V × T)) (t : T) :
    latest key (log ++ [(v, t)]) k = latest key log k := by
  simp [latest, List.filter_append, h]

/-- In a log in the order of time, no write of a key is later than the latest. -/
theorem le_latest [LE T] [Std.IsPreorder T] {log : List (V × T)}
    (hlog : log.Pairwise fun e e' => e.2 ≤ e'.2) {v : V} {t : T} (h : (v, t) ∈ log) {e : V × T}
    (he : latest key log (key v) = some e) : t ≤ e.2 := by
  obtain ⟨before, hsplit⟩ := List.getLast?_eq_some_iff.1 he
  have hmem : (v, t) ∈ log.filter fun e => key e.1 = key v := List.mem_filter.2 ⟨h, by simp⟩
  have hsorted := hlog.sublist (List.filter_sublist (p := fun e => key e.1 = key v))
  rw [hsplit] at hmem hsorted
  rcases List.mem_append.1 hmem with hmem | hmem
  · exact (List.pairwise_append.1 hsorted).2.2 _ hmem e (List.mem_singleton.2 rfl)
  · obtain rfl := List.mem_singleton.1 hmem
    exact Std.le_refl t

/-- Every entry of the table is the latest write of its key. -/
def Tracks (table : TimedTable key T) (log : List (V × T)) : Prop :=
  ∀ e ∈ table.entries, latest key log (key e.1) = some e

variable {table : TimedTable key T} {log : List (V × T)}

theorem tracks_empty (log : List (V × T)) : (empty : TimedTable key T).Tracks log :=
  nofun

theorem Tracks.expire (h : table.Tracks log) (stale : T → Bool) :
    (table.expire stale).Tracks log :=
  fun e he => h e (mem_expire.1 he).1

/-- A logged write that is upserted. -/
theorem Tracks.upsert (h : table.Tracks log) (v : V) (t : T) :
    (table.upsert v t).Tracks (log ++ [(v, t)]) := by
  intro e he
  rcases mem_upsert.1 he with rfl | ⟨he, hne⟩
  · exact latest_concat_self log v t
  · -- a write of another key is not the latest of this one
    rw [latest_concat_of_ne hne.symm]
    exact h e he

/-- A logged write that removes its key instead. -/
theorem Tracks.remove (h : table.Tracks log) (v : V) (t : T) :
    (table.remove (key v)).Tracks (log ++ [(v, t)]) := by
  intro e he
  obtain ⟨he, hne⟩ := mem_remove.1 he
  rw [latest_concat_of_ne hne.symm]
  exact h e he

theorem mem_of_latest {k : K} {e : V × T} (h : latest key log k = some e) : e ∈ log :=
  (List.mem_filter.1 (List.mem_of_getLast? h)).1

theorem key_of_latest {k : K} {e : V × T} (h : latest key log k = some e) : key e.1 = k :=
  of_decide_eq_true (List.mem_filter.1 (List.mem_of_getLast? h)).2

/-- The latest write of a log that is read from another one, if what is read of a key is all that is
written to the other. -/
theorem latest_filterMap {V' K' T' : Type*} [DecidableEq K'] {key' : V' → K'}
    {f : V × T → Option (V' × T')} {k : K} {k' : K'}
    (hkey : ∀ e ∈ log, ∀ e', f e = some e' → (key' e'.1 = k' ↔ key e.1 = k))
    (htotal : ∀ e ∈ log, key e.1 = k → (f e).isSome) :
    latest key' (log.filterMap f) k' = (latest key log k).bind f := by
  induction log using List.reverseRecOn with
  | nil => rfl
  | append_singleton log e ih =>
    have ih' := ih (fun a ha => hkey a (List.mem_append_left _ ha))
      (fun a ha => htotal a (List.mem_append_left _ ha))
    have he : e ∈ log ++ [e] := by simp
    rw [List.filterMap_append]
    cases hf : f e with
    | none =>
      -- not read, so of another key
      have hne : key e.1 ≠ k := fun heq => by simpa [hf] using htotal e he heq
      rw [List.filterMap_cons_none hf, List.filterMap_nil, List.append_nil, ih',
        latest_concat_of_ne hne]
    | some e' =>
      rw [List.filterMap_cons_some hf, List.filterMap_nil]
      by_cases heq : key e.1 = k
      · obtain rfl := (hkey e he e' hf).2 heq
        obtain rfl := heq
        rw [latest_concat_self, latest_concat_self]
        exact hf.symm
      · have hne : key' e'.1 ≠ k' := fun h => heq ((hkey e he e' hf).1 h)
        rw [latest_concat_of_ne hne, latest_concat_of_ne heq, ih']

/-- The latest write of every key is in the table, if its value is live and its time has not been
dropped. -/
def Covers (table : TimedTable key T) (live : V → Prop) (dropped : T → Prop)
    (log : List (V × T)) : Prop :=
  ∀ e, latest key log (key e.1) = some e → live e.1 → ¬ dropped e.2 → e ∈ table.entries

variable {live : V → Prop} {dropped dropped' : T → Prop}

theorem covers_nil (table : TimedTable key T) : table.Covers live dropped [] :=
  nofun

theorem Covers.mono (h : table.Covers live dropped log) (hle : ∀ t, dropped t → dropped' t) :
    table.Covers live dropped' log :=
  fun e he hlive hdropped => h e he hlive fun hd => hdropped (hle _ hd)

/-- A logged write that is upserted. -/
theorem Covers.upsert (h : table.Covers live dropped log) (v : V) (t : T) :
    (table.upsert v t).Covers live dropped (log ++ [(v, t)]) := by
  intro e he hlive hdropped
  rw [mem_upsert]
  by_cases hk : key e.1 = key v
  · rw [hk, latest_concat_self] at he
    exact Or.inl (Option.some.inj he).symm
  · rw [latest_concat_of_ne (Ne.symm hk)] at he
    exact Or.inr ⟨h e he hlive hdropped, hk⟩

/-- A logged write of a value that is not live, which removes its key. -/
theorem Covers.remove (h : table.Covers live dropped log) {v : V} (hv : ¬ live v) (t : T) :
    (table.remove (key v)).Covers live dropped (log ++ [(v, t)]) := by
  intro e he hlive hdropped
  rw [mem_remove]
  by_cases hk : key e.1 = key v
  · rw [hk, latest_concat_self] at he
    obtain rfl := Option.some.inj he
    exact absurd hlive hv
  · rw [latest_concat_of_ne (Ne.symm hk)] at he
    exact ⟨h e he hlive hdropped, hk⟩

/-- Entries expire that have been dropped then. -/
theorem Covers.expire {stale : T → Bool} (h : table.Covers live dropped log)
    (hstale : ∀ e ∈ table.entries, stale e.2 = true → dropped e.2) :
    (table.expire stale).Covers live dropped log := by
  intro e he hlive hdropped
  have hmem := h e he hlive hdropped
  refine mem_expire.2 ⟨hmem, Bool.eq_false_iff.2 fun hs => hdropped (hstale e hmem hs)⟩

/-! ## Writes at one time -/

section Replay

variable {keep : V → Bool} {stale : T → Bool} {now : T} {vs vs' : List V}

/-- One write: a value to keep is upserted and the table expires, another removes its key. -/
def write (keep : V → Bool) (stale : T → Bool) (now : T) (table : TimedTable key T) (v : V) :
    TimedTable key T :=
  if keep v then (table.upsert v now).expire stale else table.remove (key v)

/-- A list of writes, all at one time. -/
def replay (keep : V → Bool) (stale : T → Bool) (now : T) (table : TimedTable key T)
    (vs : List V) : TimedTable key T :=
  vs.foldl (write keep stale now) table

theorem replay_concat (v : V) : table.replay keep stale now (vs ++ [v]) =
    (table.replay keep stale now vs).write keep stale now v := by
  rw [replay, replay, List.foldl_append]
  rfl

/-- The last of a list of values with a key. -/
def lastOf (key : V → K) (vs : List V) (k : K) : Option V :=
  (vs.filter fun v => key v = k).getLast?

/-- The entry of the key that is written. -/
theorem mem_write_self (hnow : stale now = false) {v : V} {e : V × T} (hk : key v = key e.1) :
    e ∈ (table.write keep stale now v).entries ↔ keep v ∧ e = (v, now) := by
  unfold write
  split
  next hkeep =>
    rw [mem_expire, mem_upsert, and_iff_right hkeep]
    constructor
    · rintro ⟨heq | ⟨-, hne⟩, -⟩
      · exact heq
      · exact absurd hk.symm hne
    · rintro rfl
      exact ⟨Or.inl rfl, hnow⟩
  next hkeep =>
    rw [mem_remove]
    exact iff_of_false (fun hmem => hmem.2 hk.symm) fun hkept => hkeep hkept.1

/-- The entry of another key, which a write can only expire. -/
theorem mem_write_of_ne {v : V} {e : V × T} (hk : key v ≠ key e.1) :
    e ∈ (table.write keep stale now v).entries ↔
      e ∈ table.entries ∧ (keep v → stale e.2 = false) := by
  unfold write
  split
  next hkeep =>
    rw [mem_expire, mem_upsert, imp_iff_right hkeep]
    apply and_congr_left
    intro _
    constructor
    · rintro (rfl | ⟨hmem, -⟩)
      · exact absurd rfl hk
      · exact hmem
    · exact fun hmem => Or.inr ⟨hmem, Ne.symm hk⟩
  next hkeep =>
    rw [mem_remove, and_iff_left (Ne.symm hk)]
    exact (and_iff_left fun hkeep' => absurd hkeep' hkeep).symm

/-- The entries after writes at a time that is not stale. A key that was written has its last value
if that is kept; any other has its old entry, unless an expiry has dropped it. -/
theorem mem_replay (hnow : stale now = false) {e : V × T} :
    e ∈ (table.replay keep stale now vs).entries ↔
      (∃ v, lastOf key vs (key e.1) = some v ∧ keep v ∧ e = (v, now)) ∨
        lastOf key vs (key e.1) = none ∧ e ∈ table.entries ∧
          ((∃ v ∈ vs, keep v) → stale e.2 = false) := by
  induction vs using List.reverseRecOn with
  | nil => simp [replay, lastOf]
  | append_singleton vs v ih =>
    rw [replay_concat]
    by_cases hk : key v = key e.1
    · have hlast : lastOf key (vs ++ [v]) (key e.1) = some v := by
        simp [lastOf, List.filter_append, hk]
      rw [hlast, mem_write_self hnow hk]
      simp
    · have hlast : lastOf key (vs ++ [v]) (key e.1) = lastOf key vs (key e.1) := by
        simp [lastOf, List.filter_append, hk]
      have hany : (∃ v' ∈ vs ++ [v], keep v') ↔ (∃ v' ∈ vs, keep v') ∨ keep v := by
        simp [or_and_right, exists_or]
      rw [hlast, hany, mem_write_of_ne hk, ih]
      constructor
      · rintro ⟨hwritten | ⟨hnone, hold, hfresh⟩, hkept⟩
        · exact Or.inl hwritten
        · exact Or.inr ⟨hnone, hold, fun h => h.elim hfresh hkept⟩
      · rintro (⟨v', hv', hkeep', rfl⟩ | ⟨hnone, hold, hfresh⟩)
        · exact ⟨Or.inl ⟨v', hv', hkeep', rfl⟩, fun _ => hnow⟩
        · exact ⟨Or.inr ⟨hnone, hold, fun h => hfresh (Or.inl h)⟩, fun h => hfresh (Or.inr h)⟩

/-- Lists with the same values of each key have the same values. -/
theorem mem_iff_of_filter_eq
    (h : ∀ k, (vs.filter fun v => key v = k) = vs'.filter fun v => key v = k) {v : V} :
    v ∈ vs ↔ v ∈ vs' := by
  have hself : ∀ ws : List V, v ∈ ws ↔ v ∈ ws.filter fun w => key w = key v := fun ws => by simp
  rw [hself vs, h, ← hself vs']

/-- Writes at one time give the same table in every order that keeps those of each key in order. -/
theorem mem_replay_congr (hnow : stale now = false)
    (h : ∀ k, (vs.filter fun v => key v = k) = vs'.filter fun v => key v = k) {e : V × T} :
    e ∈ (table.replay keep stale now vs).entries ↔
      e ∈ (table.replay keep stale now vs').entries := by
  have hlast : lastOf key vs (key e.1) = lastOf key vs' (key e.1) := by rw [lastOf, h, lastOf]
  have hany : (∃ v ∈ vs, keep v) ↔ ∃ v ∈ vs', keep v :=
    exists_congr fun v => and_congr_left' (mem_iff_of_filter_eq h)
  rw [mem_replay hnow, mem_replay hnow, hlast, hany]

/-- A value to keep that is written twice is written once. -/
theorem write_idem {v : V} (hnow : stale now = false) (hkeep : keep v) :
    (table.write keep stale now v).write keep stale now v = table.write keep stale now v := by
  rw [write, if_pos hkeep, write, if_pos hkeep]
  have hmem : (v, now) ∈ ((table.upsert v now).expire stale).entries :=
    mem_expire.2 ⟨mem_upsert.2 (Or.inl rfl), hnow⟩
  rw [upsert_eq_self hmem]
  exact expire_eq_self fun e he => (mem_expire.1 he).2

end Replay

end TimedTable
