import Keyleport.Lib.Except
import Mathlib.Algebra.Group.Nat.Defs
import Mathlib.Data.List.Nodup

/-!
# Event emitter

`utils/event_emitter/event_emitter.h`: a list of callbacks under increasing ids. `emit` copies
the callbacks under the lock and then invokes the non-empty ones in subscription order, so what
a callback does to the list does not change which callbacks run.

A callback is a value of an arbitrary type `C`; what it does is given to `emit` as a function on
the state of the program, which may throw.

* `EventEmitter.emit_invariant`, `EventEmitter.emit_ok_iff`: what an emission does.
* `EventEmitter.Issued`: the ids after a number of subscriptions.
-/

namespace Keyleport

/-- `subscription_entry`. An empty `std::function` is `none`. -/
structure SubscriptionEntry (C : Type) where
  id : UInt64
  callback : Option C
deriving DecidableEq, Repr

/-- `event_emitter`. -/
structure EventEmitter (C : Type) where
  subscribers : List (SubscriptionEntry C)
  nextId : UInt64
deriving DecidableEq, Repr

namespace EventEmitter

variable {C σ ε : Type}

/-- A new emitter. -/
def empty : EventEmitter C := ⟨[], 0⟩

/-- `subscribe`: the new id and the emitter with the entry at the end. -/
def subscribe (e : EventEmitter C) (cb : Option C) : UInt64 × EventEmitter C :=
  let id := e.nextId + 1
  (id, ⟨e.subscribers ++ [⟨id, cb⟩], id⟩)

/-- `unsubscribe`: erase the first entry with the id. -/
def unsubscribe (e : EventEmitter C) (id : UInt64) : EventEmitter C :=
  { e with subscribers := e.subscribers.eraseP fun s => s.id = id }

/-- `clear_subscribers`. -/
def clearSubscribers (e : EventEmitter C) : EventEmitter C := { e with subscribers := [] }

/-- A call that changes the subscribers. -/
inductive Call (C : Type) where
  | subscribe (cb : Option C)
  | unsubscribe (id : UInt64)
  | clearSubscribers
deriving DecidableEq, Repr

/-- A call draws an id. -/
def Call.isSubscribe : Call C → Bool
  | .subscribe _ => true
  | .unsubscribe _ | .clearSubscribers => false

/-- The emitter after a call. -/
def apply (e : EventEmitter C) : Call C → EventEmitter C
  | .subscribe cb => (e.subscribe cb).2
  | .unsubscribe id => e.unsubscribe id
  | .clearSubscribers => e.clearSubscribers

/-- The emitter after several calls. -/
def applyAll (e : EventEmitter C) (calls : List (Call C)) : EventEmitter C :=
  calls.foldl apply e

theorem applyAll_cons (e : EventEmitter C) (call : Call C) (calls : List (Call C)) :
    e.applyAll (call :: calls) = (e.apply call).applyAll calls := rfl

/-- The callbacks `emit` invokes: the non-empty ones of its snapshot. -/
def callbacks (e : EventEmitter C) : List C := e.subscribers.filterMap SubscriptionEntry.callback

/-- `emit`: invoke the callbacks in order; an exception stops it. -/
def emit (e : EventEmitter C) (invoke : C → σ → Except ε σ) (s : σ) : Except ε σ :=
  e.callbacks.foldlM (fun s cb => invoke cb s) s

/-- What every callback of the snapshot keeps, `emit` keeps. -/
theorem emit_invariant {P : σ → Prop} {e : EventEmitter C} {invoke : C → σ → Except ε σ}
    (hstep : ∀ cb ∈ e.callbacks, ∀ s s', P s → invoke cb s = .ok s' → P s') {s s' : σ} (hs : P s)
    (h : e.emit invoke s = .ok s') : P s' :=
  Except.foldlM_invariant hstep hs h

/-- When whether a callback throws does not depend on the state, `emit` returns exactly when no
callback of the snapshot throws. -/
theorem emit_ok_iff {ok : C → Prop} {e : EventEmitter C} {invoke : C → σ → Except ε σ}
    (hok : ∀ cb s, (∃ s', invoke cb s = .ok s') ↔ ok cb) (s : σ) :
    (∃ s', e.emit invoke s = .ok s') ↔ ∀ cb ∈ e.callbacks, ok cb :=
  Except.foldlM_ok_iff (fun s cb => hok cb s) e.callbacks s

/-! ## The ids -/

/-- Erasing the only element that satisfies a predicate leaves the others. -/
theorem eraseP_eq_filter {α : Type} {p : α → Bool} {l : List α} (h : l.countP p ≤ 1) :
    l.eraseP p = l.filter fun a => !p a := by
  induction l with
  | nil => rfl
  | cons a l ih =>
    by_cases ha : p a = true
    · -- the one element is in front
      rw [List.countP_cons_of_pos ha] at h
      have hl : ∀ b ∈ l, ¬ p b = true :=
        List.countP_eq_zero.1 (Nat.le_zero.1 (Nat.le_of_succ_le_succ h))
      rw [List.eraseP_cons_of_pos ha, List.filter_cons_of_neg (by simpa using ha), eq_comm,
        List.filter_eq_self]
      exact fun b hb => by simpa using hl b hb
    · rw [List.countP_cons_of_neg ha] at h
      rw [List.eraseP_cons_of_neg ha, List.filter_cons_of_pos (by simpa using ha), ih h]

variable {e : EventEmitter C} {n : ℕ}

/-- The ids of an emitter after `n` subscriptions, as long as the counter has not come round. -/
structure Issued (e : EventEmitter C) (n : ℕ) : Prop where
  nextId : e.nextId.toNat = n
  increasing : (e.subscribers.map SubscriptionEntry.id).Pairwise (· < ·)
  le_nextId : ∀ s ∈ e.subscribers, s.id ≤ e.nextId

theorem Issued.empty : Issued (empty : EventEmitter C) 0 :=
  ⟨rfl, List.Pairwise.nil, fun _ hs => absurd hs List.not_mem_nil⟩

/-- Fewer subscribers have increasing ids too. -/
theorem Issued.sublist (h : Issued e n) {subscribers : List (SubscriptionEntry C)}
    (hsub : subscribers.Sublist e.subscribers) : Issued ⟨subscribers, e.nextId⟩ n :=
  ⟨h.nextId, h.increasing.sublist (hsub.map _), fun s hs => h.le_nextId s (hsub.subset hs)⟩

/-- A subscription draws the next id. -/
theorem Issued.subscribe (h : Issued e n) (hn : n + 1 < 2 ^ 64) (cb : Option C) :
    (e.subscribe cb).1.toNat = n + 1 ∧ Issued (e.subscribe cb).2 (n + 1) := by
  have hid : (e.nextId + 1).toNat = n + 1 := by
    rw [UInt64.toNat_add, h.nextId]
    exact Nat.mod_eq_of_lt hn
  have hlt : ∀ s ∈ e.subscribers, s.id < e.nextId + 1 := fun s hs => by
    have hle := UInt64.le_iff_toNat_le.1 (h.le_nextId s hs)
    rw [UInt64.lt_iff_toNat_lt, hid]
    have hnext := h.nextId
    omega
  refine ⟨hid, hid, ?_, ?_⟩
  -- the new entry is behind the others and has the largest id
  · show ((e.subscribers ++ [_]).map SubscriptionEntry.id).Pairwise (· < ·)
    rw [List.map_append, List.pairwise_append]
    refine ⟨h.increasing, List.pairwise_singleton _ _, ?_⟩
    rintro id hid' new hnew
    obtain ⟨s, hs, rfl⟩ := List.mem_map.1 hid'
    rw [List.map_singleton, List.mem_singleton] at hnew
    exact hnew ▸ hlt s hs
  · intro s hs
    rcases List.mem_append.1 hs with hs | hs
    · exact UInt64.le_of_lt (hlt s hs)
    · rw [List.mem_singleton.1 hs]
      exact UInt64.le_refl _

/-- A call keeps the account of the ids. -/
theorem Issued.apply (h : Issued e n) (call : Call C)
    (hn : n + (if call.isSubscribe then 1 else 0) < 2 ^ 64) :
    Issued (e.apply call) (n + if call.isSubscribe then 1 else 0) := by
  cases call with
  | subscribe cb => exact (h.subscribe hn cb).2
  | unsubscribe id => exact h.sublist List.eraseP_sublist
  | clearSubscribers => exact h.sublist (List.nil_sublist _)

/-- Several calls keep the account. -/
theorem Issued.applyAll {calls : List (Call C)} (h : Issued e n)
    (hn : n + calls.countP Call.isSubscribe < 2 ^ 64) :
    Issued (e.applyAll calls) (n + calls.countP Call.isSubscribe) := by
  induction calls generalizing e n with
  | nil => exact h
  | cons call calls ih =>
    rw [List.countP_cons, Nat.add_comm (List.countP _ _), ← Nat.add_assoc] at hn ⊢
    exact ih (h.apply call (Nat.lt_of_le_of_lt (Nat.le_add_right _ _) hn)) hn

/-- No two subscribers have the same id. -/
theorem Issued.countP_id_le_one (h : Issued e n) (id : UInt64) :
    (e.subscribers.countP fun s => s.id = id) ≤ 1 := by
  have hnodup : (e.subscribers.map SubscriptionEntry.id).Nodup :=
    h.increasing.imp fun hlt => UInt64.ne_of_lt hlt
  have hcount := List.nodup_iff_count_le_one.1 hnodup id
  rwa [List.count, List.countP_map] at hcount

/-- `unsubscribe` removes the subscriber with the id, and keeps the others in order. -/
theorem Issued.unsubscribe_subscribers (h : Issued e n) (id : UInt64) :
    (e.unsubscribe id).subscribers = e.subscribers.filter fun s => s.id ≠ id := by
  unfold unsubscribe
  rw [eraseP_eq_filter (h.countP_id_le_one id)]
  apply List.filter_congr
  intro s _
  exact (decide_not).symm

end EventEmitter

end Keyleport
