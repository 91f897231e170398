import Keyleport.Session.Device

/-!
# Subscriptions of the scenes

The home scene and the receiver scene subscribe to `on_package` when they are mounted, and
unsubscribe when they are unmounted. The emitter issues 64-bit ids; the scenes keep theirs in a
`uint16_t`, so from the 65536th subscription on they unsubscribe another id than their own.

* `EventEmitter.draw`: the emitter that has issued an id, but not entered a subscriber.
* `EventEmitter.Without`: two emitters that differ in one subscriber at most, kept by every call.
* `Session.mountEmitter`: the emitter a scene subscribes to.
* `unmount_undoes_iff`: when a scene leaves the subscribers as if it had never subscribed.
-/

namespace Keyleport

namespace EventEmitter

variable {C : Type}

/-- The emitter after a subscription that enters nobody: the others get the ids they would get. -/
def draw (e : EventEmitter C) : EventEmitter C := { e with nextId := e.nextId + 1 }

/-- The id that the next subscription gets belongs to no subscriber, and the counter does not come
round to it during `calls`. -/
structure OwnId (e : EventEmitter C) (calls : List (Call C)) : Prop where
  unused : ∀ s ∈ e.subscribers, s.id ≠ e.nextId + 1
  fewer : calls.countP Call.isSubscribe < 2 ^ 64

/-- `e₀` is `e` but for a subscriber with the id `own`, if there is one. -/
structure Without (own : UInt64) (e e₀ : EventEmitter C) : Prop where
  nextId : e.nextId = e₀.nextId
  others : (e.subscribers.filter fun s => s.id ≠ own) = e₀.subscribers
  once : (e.subscribers.countP fun s => s.id = own) ≤ 1

variable {own : UInt64} {e e₀ : EventEmitter C}

/-- The id of a new subscriber is its own. -/
theorem OwnId.subscribe {calls : List (Call C)} (h : OwnId e calls) (cb : Option C) :
    Without (e.nextId + 1) (e.subscribe cb).2 e.draw := by
  have hothers : (e.subscribers.filter fun s => s.id ≠ e.nextId + 1) = e.subscribers := by
    rw [List.filter_eq_self]
    exact fun s hs => decide_eq_true (h.unused s hs)
  have hnone : (e.subscribers.countP fun s => s.id = e.nextId + 1) = 0 := by
    rw [List.countP_eq_zero]
    exact fun s hs => by simpa using h.unused s hs
  refine ⟨rfl, ?_, ?_⟩
  · show (e.subscribers ++ [_]).filter _ = e.subscribers
    rw [List.filter_append, hothers, List.filter_cons_of_neg (by simp)]
    exact List.append_nil _
  · show (e.subscribers ++ [_]).countP _ ≤ 1
    rw [List.countP_append, hnone, List.countP_singleton, Nat.zero_add]
    split <;> omega

/-- A call keeps the difference, as long as it does not issue the id again. -/
theorem Without.apply (h : Without own e e₀) (call : Call C)
    (hcall : call.isSubscribe = true → e.nextId + 1 ≠ own) :
    Without own (e.apply call) (e₀.apply call) := by
  obtain ⟨hnextId, hothers, honce⟩ := h
  cases call with
  | subscribe cb =>
    have hne : e.nextId + 1 ≠ own := hcall rfl
    refine ⟨congrArg (· + 1) hnextId, ?_, ?_⟩
    · show (e.subscribers ++ [_]).filter _ = e₀.subscribers ++ [_]
      rw [List.filter_append, hothers, List.filter_cons_of_pos (by simpa using hne), hnextId]
      rfl
    · show (e.subscribers ++ [_]).countP _ ≤ 1
      rw [List.countP_append, List.countP_cons_of_neg (by simpa using hne)]
      exact honce
  | unsubscribe id =>
    refine ⟨hnextId, ?_, ?_⟩
    · show (e.subscribers.eraseP _).filter _ = e₀.subscribers.eraseP _
      rw [← hothers, List.eraseP_filter]
      by_cases hid : id = own
      · -- the one with the own id goes, and `e₀` does not have it
        have hnone : ∀ s ∈ e.subscribers, ¬ (decide (s.id = id) && decide (s.id ≠ own)) = true := by
          simp [hid]
        rw [List.eraseP_of_forall_not hnone, hid, eraseP_eq_filter honce, List.filter_filter]
        apply List.filter_congr
        simp
      · -- another one goes from both
        congr 2
        funext s
        by_cases hs : s.id = id <;> simp [hs, hid]
    · exact Nat.le_trans (List.Sublist.countP_le List.eraseP_sublist) honce
  | clearSubscribers => exact ⟨hnextId, rfl, Nat.zero_le _⟩

/-- The counter does not come round within `2 ^ 64` subscriptions. -/
private theorem add_ofNat_ne (id : UInt64) {k : ℕ} (hpos : 0 < k) (hk : k < 2 ^ 64) :
    id + UInt64.ofNat k ≠ id := by
  intro heq
  have hnat := congrArg UInt64.toNat heq
  rw [UInt64.toNat_add, UInt64.toNat_ofNat', Nat.mod_eq_of_lt hk] at hnat
  have hlt := UInt64.toNat_lt id
  omega

/-- Several calls keep the difference. -/
theorem Without.applyAll {calls : List (Call C)} {k : ℕ} (h : Without own e e₀)
    (hnextId : e.nextId = own + UInt64.ofNat k)
    (hk : k + calls.countP Call.isSubscribe < 2 ^ 64) :
    Without own (e.applyAll calls) (e₀.applyAll calls) := by
  induction calls generalizing e e₀ k with
  | nil => exact h
  | cons call calls ih =>
    rw [applyAll_cons, applyAll_cons]
    cases call with
    | subscribe cb =>
      have hsucc : e.nextId + 1 = own + UInt64.ofNat (k + 1) := by
        rw [hnextId, UInt64.add_assoc, UInt64.ofNat_add]
        rfl
      rw [List.countP_cons_of_pos rfl] at hk
      -- the counter is `k` ahead of the own id
      have hne : e.nextId + 1 ≠ own := by
        rw [hsucc]
        exact add_ofNat_ne own (Nat.succ_pos k) (by omega)
      exact ih (h.apply _ fun _ => hne) hsucc (by omega)
    | unsubscribe id => exact ih (h.apply _ nofun) hnextId hk
    | clearSubscribers => exact ih (h.apply _ nofun) hnextId hk

/-- Unsubscribing an id takes away the difference if it is the own one, or if neither is there. -/
theorem Without.unsubscribe_iff (h : Without own e e₀) (kept : UInt64) :
    (e.unsubscribe kept).subscribers = e₀.subscribers ↔
      kept = own ∨ ∀ s ∈ e.subscribers, s.id ≠ own ∧ s.id ≠ kept := by
  rw [← h.others]
  show (e.subscribers.eraseP _ = _) ↔ _
  constructor
  · intro heq
    by_cases hkept : kept = own
    · exact Or.inl hkept
    · right
      -- the own entry would survive the call
      have hown : ∀ s ∈ e.subscribers, s.id ≠ own := by
        intro s hs hid
        have hmem : s ∈ e.subscribers.eraseP fun s => s.id = kept :=
          (List.mem_eraseP_of_neg (by simpa [hid] using Ne.symm hkept)).2 hs
        rw [heq] at hmem
        exact of_decide_eq_true (List.mem_filter.1 hmem).2 hid
      intro s hs
      rw [List.filter_eq_self.2 fun s hs => decide_eq_true (hown s hs),
        List.eraseP_eq_self_iff] at heq
      exact ⟨hown s hs, by simpa using heq s hs⟩
  · rintro (rfl | hnone)
    · -- both sides are the others
      rw [eraseP_eq_filter h.once]
      apply List.filter_congr
      simp
    · -- both sides are all subscribers
      rw [List.eraseP_of_forall_not fun s hs => by simpa using (hnone s hs).2,
        List.filter_eq_self.2 fun s hs => decide_eq_true (hnone s hs).1]

/-- A subscriber is gone, and no other one, exactly if the id unsubscribed is its own, or if nobody
has the one or the other id. -/
theorem OwnId.unsubscribe_iff {calls : List (Call C)} (h : OwnId e calls) (cb : Option C)
    (kept : UInt64) :
    (((e.subscribe cb).2.applyAll calls).unsubscribe kept).subscribers =
        (e.draw.applyAll calls).subscribers ↔
      kept = e.nextId + 1 ∨ ∀ s ∈ ((e.subscribe cb).2.applyAll calls).subscribers,
        s.id ≠ e.nextId + 1 ∧ s.id ≠ kept := by
  have hwithout : Without (e.nextId + 1) ((e.subscribe cb).2.applyAll calls)
      (e.draw.applyAll calls) := by
    apply (h.subscribe cb).applyAll (k := 0)
    · exact (UInt64.add_zero _).symm
    · rw [Nat.zero_add]
      exact h.fewer
  exact hwithout.unsubscribe_iff kept

/-- A new id is its owner's alone as long as the counter has not come round. -/
theorem Issued.ownId {n : ℕ} {calls : List (Call C)} (h : Issued e n)
    (hn : n + 1 + calls.countP Call.isSubscribe < 2 ^ 64) : OwnId e calls := by
  refine ⟨fun s hs heq => ?_, by omega⟩
  have hle := UInt64.le_iff_toNat_le.1 (h.le_nextId s hs)
  have hid : (e.nextId + 1).toNat = n + 1 := (h.subscribe (by omega) none).1
  rw [heq, hid, h.nextId] at hle
  omega

/-- The ids after several subscriptions of one callback. -/
theorem Issued.subscribes {n k : ℕ} (h : Issued e n) (cb : Option C) (hn : n + k < 2 ^ 64) :
    Issued (e.applyAll (List.replicate k (.subscribe cb))) (n + k) := by
  have hcount : (List.replicate k (Call.subscribe cb)).countP Call.isSubscribe = k := by
    rw [List.countP_replicate]
    exact if_pos rfl
  rw [← hcount] at hn
  have happly := h.applyAll hn
  rwa [hcount] at happly

/-- So it is within `2 ^ 64` subscriptions from a new emitter on. -/
theorem OwnId.of_history {history calls : List (Call C)}
    (hfewer : history.countP Call.isSubscribe + 1 + calls.countP Call.isSubscribe < 2 ^ 64) :
    OwnId ((empty : EventEmitter C).applyAll history) calls := by
  have hissued : Issued ((empty : EventEmitter C).applyAll history)
      (0 + history.countP Call.isSubscribe) := Issued.empty.applyAll (by omega)
  exact hissued.ownId (by omega)

end EventEmitter

/-! ## The scenes -/

namespace Session

open EventEmitter

variable {host : Host} {s : Session}

/-- The emitter a scene subscribes to: the home scene makes a new communication service. -/
def mountEmitter (s : Session) : Scene → EventEmitter PackageCallback
  | .home => .empty
  | .sender | .receiver => s.onPackage

/-- Calls on `on_package` by others. -/
def others (s : Session) (calls : List (Call PackageCallback)) : Session :=
  { s with onPackage := s.onPackage.applyAll calls }

/-- A `uint16_t` keeps a 64-bit value exactly if it is in range. -/
theorem toUInt16_toUInt64_eq_iff (id : UInt64) :
    id.toUInt16.toUInt64 = id ↔ id.toNat ≤ 65535 := by
  rw [← UInt64.toNat_inj, UInt16.toNat_toUInt64, UInt64.toNat_toUInt16]
  omega

/-- The home scene is mounted, and others have subscribed to its emitter `n` times. -/
def crowded (n : ℕ) : Session :=
  Session.init.others (List.replicate n (.subscribe (some .homeScene)))

theorem crowded_issued {n : ℕ} (hn : 1 + n < 2 ^ 64) : Issued (crowded n).onPackage (1 + n) := by
  have hinit : Issued Session.init.onPackage 1 := (Issued.empty.subscribe (by omega) _).2
  exact hinit.subscribes _ hn

end Session

/-! ## The main result -/

open EventEmitter Session

/-- When unmounting a scene undoes its subscription. Whatever calls others make while the scene is
mounted, `willUnmount` leaves exactly the subscribers that there would be had the scene only drawn
its id, if and only if the id fits into the 16 bits in which the scene keeps it, or the others have
unsubscribed the scene themselves and nobody has the id that is left of it. The home scene always
gets the id 1, as it subscribes to a new emitter. The hypothesis on the 64-bit counter holds as long
as it has not come round (`OwnId.of_history`). -/
theorem unmount_undoes_iff (host : Host) (s : Session) {scene : Scene} (hscene : scene ≠ .sender)
    {calls : List (Call PackageCallback)} (hown : OwnId (s.mountEmitter scene) calls) :
    (willUnmount (others (didMount host s scene) calls) scene).onPackage.subscribers =
        ((s.mountEmitter scene).draw.applyAll calls).subscribers ↔
      ((s.mountEmitter scene).nextId + 1).toNat ≤ 65535 ∨
        ∀ entry ∈ (others (didMount host s scene) calls).onPackage.subscribers,
          entry.id ≠ (s.mountEmitter scene).nextId + 1 ∧
            entry.id ≠ ((s.mountEmitter scene).nextId + 1).toUInt16.toUInt64 := by
  rw [← toUInt16_toUInt64_eq_iff]
  cases scene with
  | home => exact hown.unsubscribe_iff _ _
  | sender => exact absurd rfl hscene
  | receiver => exact hown.unsubscribe_iff _ _

/-- A receiver scene comes after the home scene and goes while a third subscriber stays. -/
theorem unmount_undoes_iff_early :
    (willUnmount (others (didMount ⟨[], true⟩ Session.init .receiver)
        [.subscribe (some .homeScene), .unsubscribe 1]) .receiver).onPackage.subscribers =
      (Session.init.onPackage.draw.applyAll
        [.subscribe (some .homeScene), .unsubscribe 1]).subscribers := by
  have hreceiver : Scene.receiver ≠ .sender := by decide
  have hown : OwnId Session.init.onPackage [.subscribe (some .homeScene), .unsubscribe 1] :=
    ⟨by decide, by decide⟩
  exact (unmount_undoes_iff ⟨[], true⟩ Session.init hreceiver hown).2 (Or.inl (by decide))

/-- The receiver scene gets the id 65536, keeps 0, and stays subscribed. -/
theorem receiver_stays_subscribed :
    (willUnmount (others (didMount ⟨[], true⟩ (crowded 65534) .receiver) [])
        .receiver).onPackage.subscribers ≠
      ((crowded 65534).onPackage.draw.applyAll []).subscribers := by
  have hcrowded : Issued (crowded 65534).onPackage 65535 := crowded_issued (by omega)
  have hown : OwnId (crowded 65534).onPackage [] := hcrowded.ownId (by decide)
  have hid : ((crowded 65534).onPackage.nextId + 1).toNat = 65536 :=
    (hcrowded.subscribe (by omega) none).1
  intro heq
  rcases (hown.unsubscribe_iff _ _).1 heq with hkept | hnone
  · -- 65536 does not fit into 16 bits
    have hle := (toUInt16_toUInt64_eq_iff _).1 hkept
    omega
  · -- the scene's own entry is the last one
    exact (hnone _ (List.mem_append_right _ List.mem_cons_self)).1 rfl

end Keyleport
