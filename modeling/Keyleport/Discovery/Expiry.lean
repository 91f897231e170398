import Keyleport.Discovery.Candidates
import Keyleport.Discovery.Freshness

/-!
# Expiry under any clock

The age of an entry is an unsigned difference of two readings of the system clock. If the clock
has been stepped back behind the time of an entry, the difference wraps around and the entry is
taken for stale, however recently it was written.

* `DiscoveryService.stale_silent_iff`: for which readings only silence makes a time stale.
* `DiscoveryService.OnlySilentExpire`: what expiry should do in a step.
* `DiscoveryService.ClockHolds`: how the readings of a step must lie for that.
* `only_silent_expire_iff`: in a run, the one is the other.
* `clock_step_expires`: a clock that goes back by one millisecond inside a callback.
-/

namespace Keyleport

namespace DiscoveryService

variable {lib : Nlohmann} {s s' u : DiscoveryService} {table : PeerTable}

/-- The clock has not gone back behind a time, or so far that the difference wraps around to less
than the timeout. -/
def NotBehind (now t : UInt64) : Prop :=
  t ≤ now ∨ now.toNat + 2 ^ 64 ≤ t.toNat + peerStaleTimeoutMs.toNat

/-- A time that is stale is more than the timeout ago if and only if the clock is not behind it. -/
theorem stale_silent_iff {now t : UInt64} :
    (isStale now t = true → t.toNat + peerStaleTimeoutMs.toNat < now.toNat) ↔ NotBehind now t := by
  by_cases hle : t ≤ now
  · -- the difference is exact
    refine iff_of_true (fun hstale => ?_) (Or.inl hle)
    have hfresh := mt (isStale_eq_false_iff hle).2
    rw [Bool.not_eq_false, not_le] at hfresh
    exact hfresh hstale
  · -- the difference wraps around
    have hlt : now.toNat < t.toNat := UInt64.lt_iff_toNat_lt.1 (UInt64.not_le.1 hle)
    have hbound := t.toNat_lt
    have hsub : (now - t).toNat = now.toNat + 2 ^ 64 - t.toNat := by
      rw [UInt64.toNat_sub]
      omega
    have hstale : isStale now t = true ↔
        t.toNat + peerStaleTimeoutMs.toNat < now.toNat + 2 ^ 64 := by
      rw [isStale, decide_eq_true_iff, gt_iff_lt, UInt64.lt_iff_toNat_lt, hsub]
      omega
    rw [hstale, NotBehind, or_iff_right hle]
    omega

/-- An entry that a call of `remove_stale_peers` removes is more than the timeout old. -/
def RemovesOnlySilent (u : DiscoveryService) (now : UInt64) : Prop :=
  ∀ e ∈ u.discoveredPeers.zip u.peerLastSeenTimestamps,
    e ∉ (u.removeStalePeers now).discoveredPeers.zip
      (u.removeStalePeers now).peerLastSeenTimestamps →
    e.2.toNat + peerStaleTimeoutMs.toNat < now.toNat

theorem Represents.removesOnlySilent_iff (hT : Represents table u) {now : UInt64} :
    RemovesOnlySilent u now ↔ ∀ e ∈ table.entries, NotBehind now e.2 := by
  rw [RemovesOnlySilent, hT.zip_eq, (hT.removeStalePeers now).zip_eq]
  refine forall₂_congr fun e he => ?_
  have hremoved : e ∉ (table.expire (isStale now)).entries ↔ isStale now e.2 = true := by
    rw [TimedTable.mem_expire, and_iff_right he, Bool.not_eq_false]
  rw [hremoved, stale_silent_iff]

/-- What expiry should do in a step: a sweep removes only silent peers, and a peer that is recorded
is there when `update_peer_state` returns. -/
structure OnlySilentExpire (lib : Nlohmann) (s : DiscoveryService) (l : Step) : Prop where
  removes : ∀ u now, sweep? lib s l = some (u, now) → RemovesOnlySilent u now
  recorded : ∀ msg clock peer, l = .message msg clock →
    acceptedPeer lib s.selfPeer.deviceId msg = some peer → peer.state ≠ .gone →
    peer ∈ (s.updatePeerState peer clock.seen clock.stale).2.discoveredPeers

/-- Where the readings of a step lie: a sweep is not behind the time of an entry, and at most the
timeout after the time at which its own step recorded a peer. -/
def ClockHolds (lib : Nlohmann) (s : DiscoveryService) : Step → Prop
  | .message msg clock => ∀ peer, acceptedPeer lib s.selfPeer.deviceId msg = some peer →
      peer.state ≠ .gone → NotBehind clock.stale clock.seen ∧
      clock.stale.toNat ≤ clock.seen.toNat + peerStaleTimeoutMs.toNat ∧
      ∀ e ∈ s.discoveredPeers.zip s.peerLastSeenTimestamps, e.1.deviceId ≠ peer.deviceId →
        NotBehind clock.stale e.2
  | .update _ stale => ∀ e ∈ s.discoveredPeers.zip s.peerLastSeenTimestamps, NotBehind stale e.2
  | .cleanup _ => True

/-- A peer that is recorded is in the table afterwards if its time is not stale. -/
theorem Represents.mem_updatePeerState_iff (hT : Represents table s) {peer : DiscoveryPeer}
    {now stale : UInt64} :
    peer ∈ (s.updatePeerState peer now stale).2.discoveredPeers ↔ isStale stale now = false := by
  rw [(hT.updatePeerState peer now stale).1, List.mem_map]
  constructor
  · rintro ⟨e, he, rfl⟩
    obtain ⟨he, hfresh⟩ := TimedTable.mem_expire.1 he
    rcases TimedTable.mem_upsert.1 he with heq | ⟨-, hne⟩
    · rwa [heq] at hfresh
    · exact absurd rfl hne
  · intro hfresh
    exact ⟨(peer, now), TimedTable.mem_expire.2 ⟨TimedTable.mem_upsert.2 (Or.inl rfl), hfresh⟩, rfl⟩

/-- A time is not stale if and only if the clock is not behind it and within the timeout. -/
theorem isStale_eq_false_iff_notBehind {now t : UInt64} : isStale now t = false ↔
    NotBehind now t ∧ now.toNat ≤ t.toNat + peerStaleTimeoutMs.toNat := by
  by_cases hle : t ≤ now
  · rw [isStale_eq_false_iff hle, NotBehind, or_iff_left_of_imp fun _ => hle]
    exact (and_iff_right hle).symm
  · have hlt : now.toNat < t.toNat := UInt64.lt_iff_toNat_lt.1 (UInt64.not_le.1 hle)
    rw [and_iff_left (by omega), ← stale_silent_iff, ← Bool.not_eq_true]
    exact ⟨fun hfresh hstale => absurd hstale hfresh, fun h hstale => absurd (h hstale) (by omega)⟩

/-! ## The steps -/

/-- The callback sweeps after it has recorded a peer. -/
theorem sweep?_of_recorded {msg : Message} {clock : MessageClock} {peer : DiscoveryPeer}
    (hpeer : acceptedPeer lib s.selfPeer.deviceId msg = some peer) (hgone : peer.state ≠ .gone) :
    sweep? lib s (.message msg clock) = some (s.recordPeer peer clock.seen, clock.stale) := by
  rw [sweep?, hpeer, Option.bind_some, if_neg hgone]

/-- A datagram that is dropped, or of a peer that has gone, has no sweep. -/
theorem sweep?_of_not_recorded {msg : Message} {clock : MessageClock}
    (h : ∀ peer, acceptedPeer lib s.selfPeer.deviceId msg = some peer → peer.state = .gone) :
    sweep? lib s (.message msg clock) = none := by
  apply Option.eq_none_iff_forall_ne_some.2
  intro e he
  obtain ⟨peer, hpeer, he⟩ := Option.bind_eq_some_iff.1 he
  obtain ⟨hgone, -⟩ := Option.ite_none_left_eq_some.1 he
  exact hgone (h peer hpeer)

/-- A step without a sweep expires nothing. -/
theorem onlySilentExpire_of_no_sweep {l : Step} (hsweep : sweep? lib s l = none)
    (hrecorded : ∀ msg clock peer, l = .message msg clock →
      acceptedPeer lib s.selfPeer.deviceId msg = some peer → peer.state = .gone) :
    OnlySilentExpire lib s l := by
  refine ⟨fun u now hu => ?_, fun msg clock peer hl hpeer hgone => ?_⟩
  · rw [hsweep] at hu
    cases hu
  · exact absurd (hrecorded msg clock peer hl hpeer) hgone

/-- When a peer is recorded, only silent peers expire if and only if the clock holds. -/
theorem onlySilentExpire_recorded_iff {msg : Message} {clock : MessageClock} {peer : DiscoveryPeer}
    (hT : Represents table s) (hpeer : acceptedPeer lib s.selfPeer.deviceId msg = some peer)
    (hgone : peer.state ≠ .gone) :
    OnlySilentExpire lib s (.message msg clock) ↔ ClockHolds lib s (.message msg clock) := by
  have hsweep : sweep? lib s (.message msg clock) =
      some (s.recordPeer peer clock.seen, clock.stale) :=
    sweep?_of_recorded hpeer hgone
  have hrecord := hT.recordPeer peer clock.seen
  constructor
  · intro honly
    have hall := hrecord.removesOnlySilent_iff.1 (honly.removes _ _ hsweep)
    have hkept := honly.recorded msg clock peer rfl hpeer hgone
    obtain ⟨hbehind, hwithin⟩ :=
      isStale_eq_false_iff_notBehind.1 (hT.mem_updatePeerState_iff.1 hkept)
    intro peer' hpeer' _
    obtain rfl := Option.some.inj (hpeer.symm.trans hpeer')
    refine ⟨hbehind, hwithin, fun e he hid => hall e ?_⟩
    rw [hT.zip_eq] at he
    exact TimedTable.mem_upsert.2 (Or.inr ⟨he, hid⟩)
  · intro hclock
    obtain ⟨hbehind, hwithin, hothers⟩ := hclock peer hpeer hgone
    refine ⟨fun u now hu => ?_, fun msg' clock' peer' heq hpeer' _ => ?_⟩
    · rw [hsweep] at hu
      obtain ⟨rfl, rfl⟩ := Prod.mk.inj (Option.some.inj hu)
      apply hrecord.removesOnlySilent_iff.2
      intro e he
      rcases TimedTable.mem_upsert.1 he with rfl | ⟨he, hid⟩
      · exact hbehind
      · exact hothers e (hT.zip_eq ▸ he) hid
    · cases heq
      obtain rfl := Option.some.inj (hpeer.symm.trans hpeer')
      exact hT.mem_updatePeerState_iff.2 (isStale_eq_false_iff_notBehind.2 ⟨hbehind, hwithin⟩)

/-- In an update, only silent peers expire if and only if the clock holds. -/
theorem onlySilentExpire_update_iff {broadcast stale : UInt64} (hT : Represents table s)
    (h : step lib s (.update broadcast stale) = some s') :
    OnlySilentExpire lib s (.update broadcast stale) ↔
      ClockHolds lib s (.update broadcast stale) := by
  obtain ⟨t, ht, -⟩ := Except.bind_eq_ok_iff.1 (Except.eq_ok_of_toOption h)
  have hsweep : sweep? lib s (.update broadcast stale) = some (t, stale) := by
    rw [sweep?, ht]
    rfl
  -- the broadcast before the sweep does not touch the table
  have hTt : Represents table t := by
    obtain ⟨time, new, rfl, -⟩ := broadcastOwnState_eq_ok ht
    exact hT
  rw [ClockHolds, hT.zip_eq, ← hTt.removesOnlySilent_iff]
  constructor
  · exact fun honly => honly.removes t stale hsweep
  · intro hremoves
    refine ⟨fun u now hu => ?_, fun msg clock peer heq => ?_⟩
    · rw [hsweep] at hu
      obtain ⟨rfl, rfl⟩ := Prod.mk.inj (Option.some.inj hu)
      exact hremoves
    · cases heq

/-- In a step, only silent peers expire if and only if the clock holds. -/
theorem onlySilentExpire_iff {l : Step} (hT : Represents table s) (h : step lib s l = some s') :
    OnlySilentExpire lib s l ↔ ClockHolds lib s l := by
  cases l with
  | message msg clock =>
    by_cases hrecorded : ∃ peer, acceptedPeer lib s.selfPeer.deviceId msg = some peer ∧
        peer.state ≠ .gone
    · obtain ⟨peer, hpeer, hgone⟩ := hrecorded
      exact onlySilentExpire_recorded_iff hT hpeer hgone
    · simp only [not_exists, not_and, not_not] at hrecorded
      refine iff_of_true (onlySilentExpire_of_no_sweep (sweep?_of_not_recorded hrecorded) ?_)
        fun peer hpeer hgone => absurd (hrecorded peer hpeer) hgone
      intro msg' clock' peer heq hpeer
      cases heq
      exact hrecorded peer hpeer
  | update broadcast stale => exact onlySilentExpire_update_iff hT h
  | cleanup now =>
    refine iff_of_true (onlySilentExpire_of_no_sweep rfl fun msg clock peer heq => ?_) trivial
    cases heq

end DiscoveryService

open DiscoveryService in
/-- When only silent peers expire. In a run of the service, with any clock, every call of
`remove_stale_peers` removes only entries that are more than the timeout older than its reading,
and every peer that `update_peer_state` records is there when it returns, if and only if in every
step the clock is not behind the time of an entry at the sweep, and the two readings of
`update_peer_state` are at most the timeout apart. -/
theorem only_silent_expire_iff {lib : Nlohmann} {deviceId deviceName platform : StdString}
    {first second : UInt64} {s₀ s : DiscoveryService} {ls : List Step}
    (hinit : init lib deviceId deviceName platform first second = .ok s₀)
    (h : (machine lib).run s₀ ls = some s) :
    (∀ ls' l t, ls' ++ [l] <+: ls → (machine lib).run s₀ ls' = some t →
        OnlySilentExpire lib t l) ↔
      ∀ ls' l t, ls' ++ [l] <+: ls → (machine lib).run s₀ ls' = some t → ClockHolds lib t l := by
  refine forall₅_congr fun ls' l t hpre ht => ?_
  obtain ⟨table, hI⟩ := TableInvariant.run (.init hinit) ht
  obtain ⟨t', hstep, -⟩ := Machine.step_of_prefix h hpre ht
  exact onlySilentExpire_iff hI.represents hstep

/-- A datagram of peer `b`, from the address 10.0.0.2. -/
def DiscoveryService.fromB : Message :=
  ⟨⟨.ofString "10.0.0.2"⟩, .self, .ofString "\x7b\"device_id\":\"b\"\x7d"⟩

open DiscoveryService in
/-- Peer `b` is seen at the time 1 and removed at the time 20000. -/
theorem only_silent_expire_iff_silent : ∃ s₀ s,
    init JsonText.nlohmann (.ofString "a") [] [] 0 0 = .ok s₀ ∧
      (machine JsonText.nlohmann).run s₀ [.message fromB ⟨1, 1, 1⟩, .update 20000 20000] = some s ∧
      s.discoveredPeers = [] ∧
      ∀ ls' l t, ls' ++ [l] <+: [.message fromB ⟨1, 1, 1⟩, .update 20000 20000] →
        (machine JsonText.nlohmann).run s₀ ls' = some t →
        OnlySilentExpire JsonText.nlohmann t l := by
  have hrun : ∃ s₀ ∈ (init JsonText.nlohmann (.ofString "a") [] [] 0 0).toOption,
      ∃ t ∈ (machine JsonText.nlohmann).run s₀ ([] ++ [.message fromB ⟨1, 1, 1⟩]),
      t.peerLastSeenTimestamps = [1] ∧
      ∃ s ∈ (machine JsonText.nlohmann).run s₀
        ([.message fromB ⟨1, 1, 1⟩] ++ [.update 20000 20000]), s.discoveredPeers = [] := by
    decide +kernel
  obtain ⟨s₀, hs₀, t, ht, htimes, s, hs, hempty⟩ := hrun
  have hinit : init JsonText.nlohmann (.ofString "a") [] [] 0 0 = .ok s₀ :=
    Except.eq_ok_of_toOption hs₀
  refine ⟨s₀, s, hinit, hs, hempty, (only_silent_expire_iff hinit hs).2 ?_⟩
  refine (Machine.forall_steps_concat ht).2 ⟨fun e he => ?_, ?_⟩
  · -- the only entry has the time 1
    have htime := (List.of_mem_zip he).2
    rw [htimes] at htime
    rw [List.mem_singleton.1 htime]
    exact Or.inl (by decide)
  · refine (Machine.forall_steps_concat rfl).2
      ⟨fun peer _ _ => ⟨Or.inl (by decide), by decide, ?_⟩, ?_⟩
    · rw [(availableDevices_init hinit).2]
      exact nofun
    · intro ls' l t hpre
      exact absurd (List.prefix_nil.1 hpre) (by simp)

open DiscoveryService in
/-- A clock that goes back by one millisecond inside the callback removes the peer that was just
recorded, at the reading 1 with the time 2. -/
theorem clock_step_expires : ¬ ∀ (s₀ s : DiscoveryService) (ls : List Step),
    init JsonText.nlohmann (.ofString "a") [] [] 0 0 = .ok s₀ →
    (machine JsonText.nlohmann).run s₀ ls = some s → ∀ l s', step JsonText.nlohmann s l = some s' →
    ∀ u now, sweep? JsonText.nlohmann s l = some (u, now) → RemovesOnlySilent u now := by
  intro honly
  have hrun : ∃ s₀ ∈ (init JsonText.nlohmann (.ofString "a") [] [] 0 0).toOption,
      (∃ s ∈ step JsonText.nlohmann s₀ (.message fromB ⟨2, 1, 1⟩), True) ∧
      ∃ v ∈ sweep? JsonText.nlohmann s₀ (.message fromB ⟨2, 1, 1⟩), v.2 = 1 ∧
        ∃ e ∈ v.1.discoveredPeers.zip v.1.peerLastSeenTimestamps, e.2 = 2 ∧
          e ∉ (v.1.removeStalePeers v.2).discoveredPeers.zip
            (v.1.removeStalePeers v.2).peerLastSeenTimestamps := by
    decide +kernel
  obtain ⟨s₀, hs₀, ⟨s', hs', -⟩, ⟨u, now⟩, hsweep, rfl, e, he, htime, hremoved⟩ := hrun
  have hinit : init JsonText.nlohmann (.ofString "a") [] [] 0 0 = .ok s₀ :=
    Except.eq_ok_of_toOption hs₀
  have hsilent := honly s₀ s₀ [] hinit rfl _ s' hs' u _ hsweep e he hremoved
  rw [htime] at hsilent
  exact absurd hsilent (by decide)

end Keyleport
