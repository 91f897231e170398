import Keyleport.Discovery.Identity
import Keyleport.Lib.Heartbeat

/-!
# Live peers are not stale

A device whose updates go on broadcasts at least every five seconds and one update period. Another
device that hears enough of these broadcasts soon enough has heard a recent one whenever it looks
for stale peers.

* `DiscoveryService.gaps_sends`: the times of a live device's broadcasts.
* `DiscoveryService.sweep?`: the call of `remove_stale_peers` in a step, and what its table holds.
* `live_peer_kept`: no such call removes a live device.
-/

namespace Keyleport

namespace DiscoveryService

variable {lib : Nlohmann} {s s' : DiscoveryService}

/-! ## Clocks and ticks -/

/-- The readings of the clock in a step. -/
def Step.readings : Step → List UInt64
  | message _ clock => [clock.seen, clock.stale, clock.broadcast]
  | update broadcast stale => [broadcast, stale]
  | cleanup now => [now]

/-- The reading that a broadcast in a step is made at. -/
def Step.broadcastReading : Step → UInt64
  | message _ clock => clock.broadcast
  | update broadcast _ => broadcast
  | cleanup now => now

/-- The time of a call of `update`. -/
def Step.tick? : Step → Option UInt64
  | update broadcast _ => some broadcast
  | _ => none

/-- The readings of the clock in a list of steps. -/
def readings (ls : List Step) : List UInt64 := ls.flatMap Step.readings

/-- The times of the calls of `update` in a list of steps. -/
def ticks (ls : List Step) : List UInt64 := ls.filterMap Step.tick?

theorem tick_mem_readings {ls : List Step} {u : UInt64} (h : u ∈ ticks ls) : u ∈ readings ls := by
  obtain ⟨l, hl, hu⟩ := List.mem_filterMap.1 h
  refine List.mem_flatMap.2 ⟨l, hl, ?_⟩
  cases l with
  | update broadcast stale =>
    obtain rfl := Option.some.inj hu
    exact List.mem_cons_self
  | message msg clock => cases hu
  | cleanup now => cases hu

/-! ## Broadcasts -/

/-- A broadcast is made, or it is not due. -/
theorem broadcastOwnState_cases {force : Bool} {now : UInt64}
    (hclient : s.broadcastClient = true) (h : s.broadcastOwnState lib force now = .ok s') :
    (s' = s ∧ force = false ∧ now - s.lastBroadcastTimeMs ≤ stateBroadcastIntervalMs) ∨
      ∃ payload, s' = { s with
        lastBroadcastTimeMs := now
        broadcasts := s.broadcasts ++ [payload] } := by
  simp only [broadcastOwnState] at h
  split at h
  next =>
    obtain ⟨payload, -, h⟩ := Except.bind_eq_ok_iff.1 h
    exact Or.inr ⟨payload, (Except.ok.inj h).symm⟩
  next hshould =>
    simp only [hclient, Bool.and_true, Bool.or_eq_true, decide_eq_true_eq, not_or,
      Bool.not_eq_true] at hshould
    exact Or.inl ⟨(Except.ok.inj h).symm, hshould.1.1, UInt64.not_lt.1 hshould.2⟩

@[simp]
theorem lastBroadcastTimeMs_removePeerByDeviceId (s : DiscoveryService) (deviceId : StdString) :
    (s.removePeerByDeviceId deviceId).2.lastBroadcastTimeMs = s.lastBroadcastTimeMs := by
  rw [removePeerByDeviceId]
  split <;> rfl

@[simp]
theorem lastBroadcastTimeMs_updatePeerState (s : DiscoveryService) (peer : DiscoveryPeer)
    (now stale : UInt64) :
    (s.updatePeerState peer now stale).2.lastBroadcastTimeMs = s.lastBroadcastTimeMs := by
  rw [updatePeerState]
  split <;> rfl

/-- What a step broadcasts, and when: nothing, or one payload at its reading. -/
def Sends (s s' : DiscoveryService) (time : UInt64) : Prop :=
  (s'.broadcasts = s.broadcasts ∧ s'.lastBroadcastTimeMs = s.lastBroadcastTimeMs) ∨
    ∃ payload, s'.broadcasts = s.broadcasts ++ [payload] ∧ s'.lastBroadcastTimeMs = time

/-- Handling a peer broadcasts at most the answer to a new one. -/
theorem onPeer_sends {peer : DiscoveryPeer} {clock : MessageClock}
    (hself : isSelf s.selfPeer.deviceId peer = false) (hclient : s.broadcastClient = true)
    (h : s.onPeer lib peer clock = .ok s') :
    s'.broadcastClient = true ∧ Sends s s' clock.broadcast := by
  refine ⟨(says_onPeer hself h).broadcastClient.trans hclient, ?_⟩
  rcases onPeer_cases hself h with ⟨-, removed, t, hremove, rfl⟩ | ⟨-, isNew, t, hupdate, hcases⟩
  · have hsent := broadcasts_removePeerByDeviceId s peer.deviceId
    have hlast := lastBroadcastTimeMs_removePeerByDeviceId s peer.deviceId
    rw [hremove] at hsent hlast
    cases removed with
    | false => exact Or.inl ⟨hsent, hlast⟩
    | true => exact Or.inl ⟨hsent, hlast⟩
  · have hsame := sameSelf_updatePeerState s peer clock.seen clock.stale
    have hsent := broadcasts_updatePeerState s peer clock.seen clock.stale
    have hlast := lastBroadcastTimeMs_updatePeerState s peer clock.seen clock.stale
    rw [hupdate] at hsame hsent hlast
    rcases hcases with ⟨-, rfl⟩ | ⟨-, hanswer⟩
    · exact Or.inl ⟨hsent, hlast⟩
    · -- a forced broadcast is always made
      have hclient' : t.updateConnectionCandidates.broadcastClient = true :=
        hsame.broadcastClient.trans hclient
      rcases broadcastOwnState_cases hclient' hanswer with ⟨-, hforce, -⟩ | ⟨payload, rfl⟩
      · cases hforce
      · exact Or.inr ⟨payload, congrArg (· ++ [payload]) hsent, rfl⟩

/-- A step that is no cleanup broadcasts at most one payload; an update that broadcasts none came
within the interval of the last broadcast. -/
theorem step_sends {l : Step} (hl : ∀ now, l ≠ .cleanup now) (hclient : s.broadcastClient = true)
    (h : step lib s l = some s') :
    s'.broadcastClient = true ∧ Sends s s' l.broadcastReading ∧
      ∀ u ∈ l.tick?, s'.lastBroadcastTimeMs = u ∨
        s'.lastBroadcastTimeMs = s.lastBroadcastTimeMs ∧
          u - s.lastBroadcastTimeMs ≤ stateBroadcastIntervalMs := by
  cases l with
  | message msg clock =>
    obtain ⟨-, h⟩ := message_of_step h
    rcases onMessage_eq_ok h with ⟨-, rfl⟩ | ⟨peer, -, hself, hhandle⟩
    · exact ⟨hclient, Or.inl ⟨rfl, rfl⟩, nofun⟩
    · obtain ⟨hclient', hsends⟩ := onPeer_sends hself hclient hhandle
      exact ⟨hclient', hsends, nofun⟩
  | update broadcast stale =>
    obtain ⟨t, ht, h⟩ := Except.bind_eq_ok_iff.1 (Except.eq_ok_of_toOption h)
    obtain rfl := Except.ok.inj h
    rcases broadcastOwnState_cases hclient ht with ⟨rfl, -, hdue⟩ | ⟨payload, rfl⟩
    · -- not due: the last broadcast is no older than the interval
      refine ⟨hclient, Or.inl ⟨rfl, rfl⟩, fun u hu => Or.inr ⟨rfl, ?_⟩⟩
      obtain rfl := Option.some.inj hu
      exact hdue
    · exact ⟨hclient, Or.inr ⟨payload, rfl, rfl⟩, fun u hu => Or.inl (Option.some.inj hu)⟩
  | cleanup now => exact absurd rfl (hl now)

/-- What a service sends over a list of steps, with the times at which it does. -/
def sends (lib : Nlohmann) (s : DiscoveryService) : List Step → List (StdString × UInt64)
  | [] => []
  | l :: ls =>
      match step lib s l with
      | none => []
      | some s' =>
          let new := s'.broadcasts.drop s.broadcasts.length
          new.map (fun payload => (payload, s'.lastBroadcastTimeMs)) ++ sends lib s' ls

/-- One step of `sends`. -/
theorem sends_cons {l : Step} {ls : List Step} {time : UInt64} (h : step lib s l = some s')
    (hsends : Sends s s' time) :
    (s'.broadcasts = s.broadcasts ∧ s'.lastBroadcastTimeMs = s.lastBroadcastTimeMs ∧
      sends lib s (l :: ls) = sends lib s' ls) ∨
    ∃ payload, s'.broadcasts = s.broadcasts ++ [payload] ∧ s'.lastBroadcastTimeMs = time ∧
      sends lib s (l :: ls) = (payload, time) :: sends lib s' ls := by
  simp only [sends, h]
  rcases hsends with ⟨hsame, hlast⟩ | ⟨payload, hmore, hlast⟩
  · exact Or.inl ⟨hsame, hlast, by simp [hsame]⟩
  · exact Or.inr ⟨payload, hmore, hlast, by simp [hmore, hlast]⟩

/-- The payloads broadcast in a run are those that `sends` times. -/
theorem broadcasts_eq_sends {ls : List Step} (hls : ∀ now, Step.cleanup now ∉ ls)
    (hclient : s.broadcastClient = true) (h : (machine lib).run s ls = some s') :
    s'.broadcasts = s.broadcasts ++ (sends lib s ls).map Prod.fst := by
  induction ls generalizing s with
  | nil =>
    obtain rfl := Option.some.inj h
    exact (List.append_nil _).symm
  | cons l ls ih =>
    obtain ⟨t, ht, h⟩ := Option.bind_eq_some_iff.1 h
    have hl : ∀ now, l ≠ .cleanup now := fun now heq => hls now (heq ▸ List.mem_cons_self)
    obtain ⟨hclient', hsends, -⟩ := step_sends hl hclient ht
    have hrest := ih (fun now hmem => hls now (List.mem_cons_of_mem _ hmem)) hclient' h
    rcases @sends_cons lib _ _ _ ls _ ht hsends with ⟨hsame, -, hcons⟩ | ⟨payload, hmore, -, hcons⟩
    · rw [hrest, hsame, hcons]
    · rw [hrest, hmore, hcons, List.map_cons, List.append_assoc, List.singleton_append]

/-- The updates of a device go on: from the time `start` on consecutive ones are at most `d`
apart, and the last is at most `d` before any of the readings. -/
structure Ticking (d : ℕ) (start : UInt64) (ls : List Step) (readings : List UInt64) :
    Prop where
  gaps : Heartbeat.Gaps d ((start :: ticks ls).map UInt64.toNat)
  goesOn : ∀ r ∈ readings, Heartbeat.GoesOn d r.toNat ((start :: ticks ls).map UInt64.toNat)

/-- A reading that is made before the next update is made at most `d` after the last. -/
theorem Ticking.le_add {d : ℕ} {u r : UInt64} {ls : List Step} {rs : List UInt64}
    (h : Ticking d u ls rs) (hr : r ∈ rs) (hnext : ∀ u' ∈ ticks ls, r ≤ u') :
    r.toNat ≤ u.toNat + d := by
  cases hticks : ticks ls with
  | nil =>
    refine h.goesOn r hr u.toNat ?_
    rw [hticks]
    rfl
  | cons u' us =>
    have hgap := h.gaps
    rw [hticks] at hgap hnext
    have hle := UInt64.le_iff_toNat_le.1 (hnext u' List.mem_cons_self)
    exact hle.trans (List.isChain_cons_cons.1 hgap).1

/-- An update is the next tick. -/
theorem Ticking.update {d : ℕ} {u broadcast stale : UInt64} {ls : List Step} {rs : List UInt64}
    (h : Ticking d u (.update broadcast stale :: ls) rs) :
    broadcast.toNat ≤ u.toNat + d ∧ Ticking d broadcast ls rs := by
  obtain ⟨hgap, hgaps⟩ := List.isChain_cons_cons.1 h.gaps
  exact ⟨hgap, hgaps, fun r hr v hv => h.goesOn r hr v hv⟩

/-- The times in a list of broadcasts, after the time of the one before. -/
def times (last : UInt64) (sent : List (StdString × UInt64)) : List ℕ :=
  (last :: sent.map Prod.snd).map UInt64.toNat

/-- The gap of the broadcasts of a device with updates at most `d` apart. -/
def broadcastGap (d : ℕ) : ℕ := stateBroadcastIntervalMs.toNat + d

/-- After a step that is no cleanup there is again an update within the interval of the last
broadcast, and that broadcast came no later after the one before it than the gap. -/
theorem Ticking.step {d : ℕ} {u : UInt64} {l : Step} {ls : List Step} {rs : List UInt64}
    (h : Ticking d u (l :: ls) rs) (hl : ∀ now, l ≠ .cleanup now)
    (hclock : (s.lastBroadcastTimeMs :: (l.readings ++ readings ls)).Pairwise (· ≤ ·))
    (hrs : ∀ r ∈ l.readings, r ∈ rs)
    (hu : u.toNat ≤ s.lastBroadcastTimeMs.toNat + stateBroadcastIntervalMs.toNat)
    (hsends : Sends s s' l.broadcastReading)
    (htick : ∀ u ∈ l.tick?, s'.lastBroadcastTimeMs = u ∨
      s'.lastBroadcastTimeMs = s.lastBroadcastTimeMs ∧
        u - s.lastBroadcastTimeMs ≤ stateBroadcastIntervalMs) :
    ∃ u', Ticking d u' ls rs ∧
      u'.toNat ≤ s'.lastBroadcastTimeMs.toNat + stateBroadcastIntervalMs.toNat ∧
      s'.lastBroadcastTimeMs.toNat ≤ s.lastBroadcastTimeMs.toNat + broadcastGap d ∧
      (s'.lastBroadcastTimeMs :: readings ls).Pairwise (· ≤ ·) := by
  obtain ⟨hfirst, hrest⟩ := List.pairwise_cons.1 hclock
  obtain ⟨-, hlater, hcross⟩ := List.pairwise_append.1 hrest
  -- a reading of the step may become the time of the last broadcast
  have hclock' : ∀ r ∈ s.lastBroadcastTimeMs :: l.readings,
      (r :: readings ls).Pairwise (· ≤ ·) := fun r hr => by
    refine List.pairwise_cons.2 ⟨fun r' hr' => ?_, hlater⟩
    rcases List.mem_cons.1 hr with rfl | hr
    · exact hfirst r' (List.mem_append_right _ hr')
    · exact hcross r hr r' hr'
  cases l with
  | message msg clock =>
    have hticking : Ticking d u ls rs := ⟨h.gaps, h.goesOn⟩
    refine ⟨u, hticking, ?_⟩
    rcases hsends with ⟨-, hlast⟩ | ⟨payload, -, hlast⟩
    · rw [hlast]
      exact ⟨hu, Nat.le_add_right _ _, hclock' _ List.mem_cons_self⟩
    · -- the answer to a new peer comes before the next tick
      have hr : clock.broadcast ∈ (Step.message msg clock).readings := by simp [Step.readings]
      have hle : clock.broadcast.toNat ≤ u.toNat + d :=
        hticking.le_add (hrs _ hr) fun u' hu' => hcross _ hr u' (tick_mem_readings hu')
      have hlater := UInt64.le_iff_toNat_le.1 (hfirst _ (List.mem_append_left _ hr))
      have hlast : s'.lastBroadcastTimeMs = clock.broadcast := hlast
      rw [hlast, broadcastGap]
      exact ⟨by omega, by omega, hclock' _ (List.mem_cons_of_mem _ hr)⟩
  | update broadcast stale =>
    obtain ⟨hle, hticking⟩ := h.update
    refine ⟨broadcast, hticking, ?_⟩
    have hr : broadcast ∈ (Step.update broadcast stale).readings := List.mem_cons_self
    rcases htick broadcast rfl with hlast | ⟨hlast, hdue⟩
    · rw [hlast, broadcastGap]
      exact ⟨by omega, by omega, hclock' _ (List.mem_cons_of_mem _ hr)⟩
    · have hlater := hfirst _ (List.mem_append_left _ hr)
      have hsub : (broadcast - s.lastBroadcastTimeMs).toNat =
          broadcast.toNat - s.lastBroadcastTimeMs.toNat := UInt64.toNat_sub_of_le _ _ hlater
      rw [UInt64.le_iff_toNat_le, hsub] at hdue
      rw [hlast]
      exact ⟨by omega, Nat.le_add_right _ _, hclock' _ List.mem_cons_self⟩
  | cleanup now => exact absurd rfl (hl now)

/-- If the last update `u` came within the interval of the last broadcast, then the broadcasts
that follow are at most the interval and one update period apart, and they go on. -/
theorem gaps_sends {d : ℕ} {u : UInt64} {ls : List Step} {rs : List UInt64}
    (hls : ∀ now, Step.cleanup now ∉ ls) (hclient : s.broadcastClient = true)
    (h : (machine lib).run s ls = some s')
    (hclock : (s.lastBroadcastTimeMs :: readings ls).Pairwise (· ≤ ·))
    (hu : u.toNat ≤ s.lastBroadcastTimeMs.toNat + stateBroadcastIntervalMs.toNat)
    (hticking : Ticking d u ls rs) (hrs : ∀ r ∈ readings ls, r ∈ rs) :
    Heartbeat.Gaps (broadcastGap d) (times s.lastBroadcastTimeMs (sends lib s ls)) ∧
      ∀ r ∈ rs, Heartbeat.GoesOn (broadcastGap d) r.toNat
        (times s.lastBroadcastTimeMs (sends lib s ls)) := by
  induction ls generalizing s u with
  | nil =>
    -- the last broadcast is that before, and the last update is near to it
    refine ⟨List.isChain_singleton _, fun r hr v hv => ?_⟩
    obtain rfl : s.lastBroadcastTimeMs.toNat = v := Option.some.inj hv
    have hle := hticking.le_add hr nofun
    rw [broadcastGap]
    omega
  | cons l ls ih =>
    obtain ⟨t, ht, h⟩ := Option.bind_eq_some_iff.1 h
    have hl : ∀ now, l ≠ .cleanup now := fun now heq => hls now (heq ▸ List.mem_cons_self)
    have hls' : ∀ now, Step.cleanup now ∉ ls := fun now hmem =>
      hls now (List.mem_cons_of_mem _ hmem)
    obtain ⟨hclient', hsends, htick⟩ := step_sends hl hclient ht
    have hsplit : readings (l :: ls) = l.readings ++ readings ls := List.flatMap_cons
    rw [hsplit] at hclock hrs
    obtain ⟨u', hticking', hu', hgap, hclock'⟩ := hticking.step hl hclock
      (fun r hr => hrs r (List.mem_append_left _ hr)) hu hsends htick
    obtain ⟨hgaps, hon⟩ := ih hls' hclient' h hclock' hu' hticking'
      fun r hr => hrs r (List.mem_append_right _ hr)
    rcases @sends_cons lib _ _ _ ls _ ht hsends with ⟨-, hlast, hcons⟩ | ⟨payload, -, hlast, hcons⟩
    · -- the step sends nothing, and the gaps are those of the rest
      rw [hcons, ← hlast]
      exact ⟨hgaps, hon⟩
    · -- its broadcast is the first one, within the gap of that before
      rw [hcons]
      rw [hlast] at hgaps hon hgap
      exact ⟨List.isChain_cons_cons.2 ⟨hgap, hgaps⟩, fun r hr v hv => hon r hr v hv⟩

/-- What a device sends from its `init` on. -/
def sent (lib : Nlohmann) (s₀ : DiscoveryService) (first second : UInt64) (ls : List Step) :
    List (StdString × UInt64) :=
  s₀.broadcasts.zip [first, second] ++ sends lib s₀ ls

theorem lastBroadcastTimeMs_init {deviceId deviceName platform : StdString}
    {first second : UInt64} (h : init lib deviceId deviceName platform first second = .ok s) :
    s.lastBroadcastTimeMs = second := by
  obtain ⟨t, ht, h⟩ := Except.bind_eq_ok_iff.1 h
  obtain ⟨time, new, rfl, -⟩ := broadcastOwnState_eq_ok ht
  rcases broadcastOwnState_cases rfl h with ⟨-, hforce, -⟩ | ⟨payload, rfl⟩
  · cases hforce
  · rfl

/-- The broadcasts of a live device, from its `init` on. -/
theorem gaps_sent {deviceId deviceName platform : StdString} {first second : UInt64}
    {s₀ : DiscoveryService} {d : ℕ} {ls : List Step} {rs : List UInt64}
    (hinit : init lib deviceId deviceName platform first second = .ok s₀)
    (h : (machine lib).run s₀ ls = some s) (hls : ∀ now, Step.cleanup now ∉ ls)
    (hclock : (first :: second :: readings ls).Pairwise (· ≤ ·))
    (hticking : Ticking d first ls rs) (hrs : ∀ r ∈ second :: readings ls, r ∈ rs) :
    (sent lib s₀ first second ls).map Prod.fst = s.broadcasts ∧
      Heartbeat.Gaps (broadcastGap d) ((sent lib s₀ first second ls).map fun e => e.2.toNat) ∧
      ∀ r ∈ rs, Heartbeat.GoesOn (broadcastGap d) r.toNat
        ((sent lib s₀ first second ls).map fun e => e.2.toNat) := by
  obtain ⟨-, -, hclient, -, payload, -, hbroadcasts⟩ := init_spec hinit
  have hlast := lastBroadcastTimeMs_init hinit
  obtain ⟨hfirst, hrest⟩ := List.pairwise_cons.1 hclock
  obtain ⟨hsecond, hlater⟩ := List.pairwise_cons.1 hrest
  have hle := UInt64.le_iff_toNat_le.1 (hfirst second List.mem_cons_self)
  -- the second broadcast of `init` comes before the first tick
  have hgap : second.toNat ≤ first.toNat + d :=
    hticking.le_add (hrs second List.mem_cons_self) fun u hu => hsecond u (tick_mem_readings hu)
  obtain ⟨hgaps, hon⟩ := gaps_sends hls hclient h (by rw [hlast]; exact hrest)
    (by rw [hlast]; omega) hticking fun r hr => hrs r (List.mem_cons_of_mem _ hr)
  have hsent : sent lib s₀ first second ls =
      (payload, first) :: (payload, second) :: sends lib s₀ ls := by
    rw [sent, hbroadcasts]
    rfl
  have htimes : (sent lib s₀ first second ls).map (fun e => e.2.toNat) =
      first.toNat :: times s₀.lastBroadcastTimeMs (sends lib s₀ ls) := by
    rw [hsent, hlast]
    simp [times]
  refine ⟨?_, ?_, fun r hr v hv => ?_⟩
  · rw [broadcasts_eq_sends hls hclient h, hsent, hbroadcasts]
    rfl
  · rw [htimes]
    refine List.isChain_cons_cons.2 ⟨?_, hgaps⟩
    rw [hlast, broadcastGap]
    omega
  · rw [htimes] at hv
    exact hon r hr v hv

/-! ## Sweeps -/

/-- The call of `remove_stale_peers` in a step: the service that it is called on, and its reading
of the clock. -/
def sweep? (lib : Nlohmann) (s : DiscoveryService) : Step → Option (DiscoveryService × UInt64)
  | .message msg clock =>
      (acceptedPeer lib s.selfPeer.deviceId msg).bind fun peer =>
        if peer.state = .gone then none else some (s.recordPeer peer clock.seen, clock.stale)
  | .update broadcast stale =>
      (s.broadcastOwnState lib false broadcast).toOption.map fun t => (t, stale)
  | .cleanup _ => none

variable {u : DiscoveryService} {now : UInt64} {l : Step} {ls : List Step} {table : PeerTable}

/-- The peers that a step with a sweep leaves are those that the sweep leaves. -/
theorem discoveredPeers_of_sweep (h : step lib s l = some s')
    (hsweep : sweep? lib s l = some (u, now)) :
    s'.discoveredPeers = (u.removeStalePeers now).discoveredPeers := by
  cases l with
  | message msg clock =>
    obtain ⟨peer, hpeer, hsweep⟩ := Option.bind_eq_some_iff.1 hsweep
    split at hsweep
    next => cases hsweep
    next hgone =>
      obtain ⟨rfl, rfl⟩ : s.recordPeer peer clock.seen = u ∧ clock.stale = now :=
        Prod.mk.inj (Option.some.inj hsweep)
      -- the step handles the peer of the sweep
      rcases onMessage_eq_ok (message_of_step h).2 with ⟨hnone, -⟩ | ⟨peer', hpeer', hself, h⟩
      · rw [hpeer] at hnone
        cases hnone
      · obtain rfl := Option.some.inj (hpeer.symm.trans hpeer')
        rcases onPeer_cases hself h with ⟨hgone', -⟩ | ⟨-, isNew, t, hupdate, hcases⟩
        · exact absurd hgone' hgone
        rw [← updatePeerState_eq, hupdate]
        rcases hcases with ⟨-, rfl⟩ | ⟨-, hanswer⟩
        · rfl
        · obtain ⟨time, new, rfl, -⟩ := broadcastOwnState_eq_ok hanswer
          rfl
  | update broadcast stale =>
    obtain ⟨t, ht, h⟩ := Except.bind_eq_ok_iff.1 (Except.eq_ok_of_toOption h)
    obtain rfl := Except.ok.inj h
    rw [sweep?, ht] at hsweep
    obtain ⟨rfl, rfl⟩ : t = u ∧ stale = now := Prod.mk.inj (Option.some.inj hsweep)
    rfl
  | cleanup now => cases hsweep

/-- A sweep goes over the latest message of each device, that of its own step included. -/
theorem sweep_tracks (hI : TableInvariant lib ls s table)
    (h : sweep? lib s l = some (u, now)) : now ∈ l.readings ∧ ∃ table',
      Represents table' u ∧ table'.Tracks (acceptedLog lib s.selfPeer.deviceId (ls ++ [l])) := by
  cases l with
  | message msg clock =>
    obtain ⟨peer, hpeer, h⟩ := Option.bind_eq_some_iff.1 h
    split at h
    next => cases h
    next =>
      obtain ⟨rfl, rfl⟩ : s.recordPeer peer clock.seen = u ∧ clock.stale = now :=
        Prod.mk.inj (Option.some.inj h)
      -- the entry that is written is the message just logged
      refine ⟨by simp [Step.readings], _, hI.represents.recordPeer peer clock.seen, ?_⟩
      have hlog : acceptedLog lib s.selfPeer.deviceId (ls ++ [.message msg clock]) =
          acceptedLog lib s.selfPeer.deviceId ls ++ [(peer, clock.seen)] := by
        simp [acceptedLog, List.filterMap_append, Step.accepted, hpeer]
      rw [hlog]
      exact hI.tracks.upsert peer clock.seen
  | update broadcast stale =>
    obtain ⟨t, ht, h⟩ := Option.map_eq_some_iff.1 h
    obtain ⟨rfl, rfl⟩ : t = u ∧ stale = now := Prod.mk.inj h
    obtain ⟨time, new, rfl, -⟩ := broadcastOwnState_eq_ok (Except.eq_ok_of_toOption ht)
    refine ⟨by simp [Step.readings], table, hI.represents, ?_⟩
    have hlog : acceptedLog lib s.selfPeer.deviceId (ls ++ [.update broadcast stale]) =
        acceptedLog lib s.selfPeer.deviceId ls := by
      simp [acceptedLog, List.filterMap_append, Step.accepted]
    rw [hlog]
    exact hI.tracks
  | cleanup now => cases h

/-- A message is logged with a reading of its step. -/
theorem accepted_mem_readings {selfId : StdString} {e : DiscoveryPeer × UInt64}
    (h : Step.accepted lib selfId l = some e) : e.2 ∈ l.readings := by
  cases l with
  | message msg clock =>
    obtain ⟨peer, -, rfl⟩ := Option.map_eq_some_iff.1 h
    exact List.mem_cons_self
  | update broadcast stale => cases h
  | cleanup now => cases h

/-- The log is in the order of time. -/
theorem acceptedLog_sorted {selfId : StdString} (hclock : (readings ls).Pairwise (· ≤ ·)) :
    (acceptedLog lib selfId ls).Pairwise fun e e' => e.2 ≤ e'.2 := by
  refine List.pairwise_filterMap.2 ((List.pairwise_flatMap.1 hclock).2.imp ?_)
  intro l l' hle e he e' he'
  exact hle _ (accepted_mem_readings he) _ (accepted_mem_readings he')

/-- No message that is logged up to a step is later than a reading of the step. -/
theorem acceptedLog_le_reading {selfId : StdString}
    (hclock : (readings (ls ++ [l])).Pairwise (· ≤ ·)) {e : DiscoveryPeer × UInt64}
    (hlog : e ∈ acceptedLog lib selfId (ls ++ [l])) (hnow : now ∈ l.readings) : e.2 ≤ now := by
  obtain ⟨l', hl', he⟩ := List.mem_filterMap.1 hlog
  have hsplit : readings (ls ++ [l]) = readings ls ++ l.readings := by
    simp [readings, List.flatMap_append]
  rw [hsplit] at hclock
  obtain ⟨-, hown, hcross⟩ := List.pairwise_append.1 hclock
  rcases List.mem_append.1 hl' with hl' | hl'
  · -- an earlier step
    exact hcross _ (List.mem_flatMap.2 ⟨l', hl', accepted_mem_readings he⟩) now hnow
  · -- the step itself reads the clock for its message first
    obtain rfl := List.mem_singleton.1 hl'
    cases l' with
    | message msg clock =>
      obtain ⟨peer, hpeer, rfl⟩ := Option.map_eq_some_iff.1 he
      rcases List.mem_cons.1 hnow with rfl | hnow
      · exact UInt64.le_refl _
      · exact (List.pairwise_cons.1 hown).1 now hnow
    | update broadcast stale => cases he
    | cleanup now => cases he

/-- A sweep keeps the entry of a device with a message that was logged within the timeout. -/
theorem sweep_keeps (hI : TableInvariant lib ls s table)
    (hclock : (readings (ls ++ [l])).Pairwise (· ≤ ·)) (h : sweep? lib s l = some (u, now))
    {peer : DiscoveryPeer} {seen : UInt64}
    (hlog : (peer, seen) ∈ acceptedLog lib s.selfPeer.deviceId (ls ++ [l]))
    (hrecent : now.toNat ≤ seen.toNat + peerStaleTimeoutMs.toNat) {p : DiscoveryPeer}
    (hp : p ∈ u.discoveredPeers) (hid : p.deviceId = peer.deviceId) :
    p ∈ (u.removeStalePeers now).discoveredPeers := by
  obtain ⟨hnow, table', hT, htracks⟩ := sweep_tracks hI h
  rw [hT.1] at hp
  obtain ⟨⟨p, time⟩, he, rfl⟩ := List.mem_map.1 hp
  -- the entry has the time of the latest message, which is no earlier
  have hlatest := htracks _ he
  rw [hid] at hlatest
  have hlater : seen ≤ time := TimedTable.le_latest (acceptedLog_sorted hclock) hlog hlatest
  have hmem : (p, time) ∈ acceptedLog lib s.selfPeer.deviceId (ls ++ [l]) :=
    (List.mem_filter.1 (List.mem_of_getLast? hlatest)).1
  have hle : time ≤ now := acceptedLog_le_reading hclock hmem hnow
  have hfresh : isStale now time = false := by
    rw [isStale_eq_false_iff hle]
    have hlater := UInt64.le_iff_toNat_le.1 hlater
    omega
  rw [(hT.removeStalePeers now).1]
  exact List.mem_map_of_mem (TimedTable.mem_expire.2 ⟨he, hfresh⟩)

/-! ## Delivery -/

/-- In the steps `ls` the service with the id `selfId` handles a payload that was sent at `time`,
no more than `delay` after. -/
def Handles (lib : Nlohmann) (selfId : StdString) (delay : ℕ) (payload : StdString)
    (time : UInt64) (ls : List Step) : Prop :=
  ∃ msg clock peer, .message msg clock ∈ ls ∧ msg.payload = payload ∧
    acceptedPeer lib selfId msg = some peer ∧ time ≤ clock.seen ∧
    clock.seen.toNat ≤ time.toNat + delay

/-- Of the broadcasts `sent`, those that are not lost are handled in the run `ls` no more than
`delay` after they were sent, and at most `losses` in a row are lost after one that is handled. -/
structure Carries (lib : Nlohmann) (selfId : StdString) (sent : List (StdString × UInt64))
    (lost : ℕ → Prop) (delay losses : ℕ) (ls : List Step) : Prop where
  arrives : ∀ (i : ℕ) payload time, sent[i]? = some (payload, time) → ¬ lost i →
    ∀ ls' l, ls' ++ [l] <+: ls → (∃ r ∈ l.readings, time.toNat + delay < r.toNat) →
      Handles lib selfId delay payload time (ls' ++ [l])
  losses : ∀ (i : ℕ) payload time, sent[i]? = some (payload, time) →
    Handles lib selfId delay payload time ls →
    ∀ n, (∀ j, i < j → j ≤ i + n → j < sent.length ∧ lost j) → n ≤ losses

/-- Among the broadcasts handled up to a reading of a step, one is recent. -/
theorem Carries.exists_recent {selfId : StdString} {sent : List (StdString × UInt64)}
    {lost : ℕ → Prop} {gap delay losses : ℕ} {ls' : List Step}
    (h : Carries lib selfId sent lost delay losses ls') (hpre : ls ++ [l] <+: ls')
    (hnow : now ∈ l.readings) (hgaps : Heartbeat.Gaps gap (sent.map fun e => e.2.toNat))
    (hon : Heartbeat.GoesOn gap now.toNat (sent.map fun e => e.2.toNat))
    (hsome : ∃ (i : ℕ) (payload : StdString) (time : UInt64), sent[i]? = some (payload, time) ∧
      Handles lib selfId delay payload time (ls ++ [l])) :
    ∃ (i : ℕ) (payload : StdString) (time : UInt64), sent[i]? = some (payload, time) ∧
      Handles lib selfId delay payload time (ls ++ [l]) ∧
      now.toNat ≤ time.toNat + (losses + 1) * gap + delay := by
  have hmono : ∀ payload time, Handles lib selfId delay payload time (ls ++ [l]) →
      Handles lib selfId delay payload time ls' := by
    rintro payload time ⟨msg, clock, peer, hmsg, hhandles⟩
    exact ⟨msg, clock, peer, hpre.subset hmsg, hhandles⟩
  -- a beat is a broadcast, and heard if it is handled by the step
  let heard (i : ℕ) : Prop := ∃ payload time, sent[i]? = some (payload, time) ∧
    Handles lib selfId delay payload time (ls ++ [l])
  have hheard : ∃ i, heard i ∧ i < (sent.map fun e => e.2.toNat).length := by
    obtain ⟨i, payload, time, hget, hhandles⟩ := hsome
    refine ⟨i, ⟨payload, time, hget, hhandles⟩, ?_⟩
    rw [List.length_map]
    exact (List.getElem?_eq_some_iff.1 hget).1
  have harrives : ∀ i v, (sent.map fun e => e.2.toNat)[i]? = some v → ¬ lost i →
      v + delay < now.toNat → heard i := by
    intro i v hv hkept hdue
    rw [List.getElem?_map] at hv
    obtain ⟨⟨payload, time⟩, hget, rfl⟩ := Option.map_eq_some_iff.1 hv
    exact ⟨payload, time, hget, h.arrives i payload time hget hkept ls l hpre ⟨now, hnow, hdue⟩⟩
  have hlosses : ∀ i, heard i → ∀ n, (∀ j, i < j → j ≤ i + n →
      j < (sent.map fun e => e.2.toNat).length ∧ lost j) → n ≤ losses := by
    rintro i ⟨payload, time, hget, hhandles⟩ n hlost
    refine h.losses i payload time hget (hmono payload time hhandles) n fun j hij hjn => ?_
    obtain ⟨hlt, hlostj⟩ := hlost j hij hjn
    exact ⟨by rwa [List.length_map] at hlt, hlostj⟩
  obtain ⟨i, v, ⟨payload, time, hget, hhandles⟩, hv, hle⟩ :=
    Heartbeat.exists_recent heard lost hgaps hon hheard harrives hlosses
  rw [List.getElem?_map, hget] at hv
  obtain rfl := Option.some.inj hv
  exact ⟨i, payload, time, hget, hhandles, hle⟩

end DiscoveryService

open DiscoveryService in
/-- A live peer is never declared stale. The updates of a device go on, at most `d` ms apart, from
its `init` on. Its broadcasts that are not lost are handled by another device within `delay` ms,
and at most `losses` in a row are lost. If the gap of the broadcasts, once for each loss and once
more, and the delay are within the staleness timeout: from the first of its broadcasts that is
handled on, no call of `remove_stale_peers` removes the device, whatever else is broadcast and
handled. -/
theorem live_peer_kept {lib : Nlohmann} (hlib : lib.Lawful)
    {idA nameA platformA idB nameB platformB : StdString}
    {firstA secondA firstB secondB : UInt64} {a₀ a b₀ b : DiscoveryService} {lsA lsB : List Step}
    (hinitA : init lib idA nameA platformA firstA secondA = .ok a₀)
    (hA : (machine lib).run a₀ lsA = some a) (halive : ∀ now, Step.cleanup now ∉ lsA)
    (hinitB : init lib idB nameB platformB firstB secondB = .ok b₀)
    (hB : (machine lib).run b₀ lsB = some b)
    (hclockA : (firstA :: secondA :: readings lsA).Pairwise (· ≤ ·))
    (hclockB : (readings lsB).Pairwise (· ≤ ·))
    {d delay losses : ℕ} {lost : ℕ → Prop}
    (hticking : Ticking d firstA lsA (secondA :: readings lsA ++ readings lsB))
    (hcarries : Carries lib idB (sent lib a₀ firstA secondA lsA) lost delay losses lsB)
    (hsum : (losses + 1) * (stateBroadcastIntervalMs.toNat + d) + delay ≤
      peerStaleTimeoutMs.toNat)
    {ls : List Step} {l : Step} {t t' : DiscoveryService} (hpre : ls ++ [l] <+: lsB)
    (ht : (machine lib).run b₀ ls = some t) (hstep : step lib t l = some t')
    (hhandled : ∃ (i : ℕ) (payload : StdString) (time : UInt64),
      (sent lib a₀ firstA secondA lsA)[i]? = some (payload, time) ∧
        Handles lib idB delay payload time (ls ++ [l]))
    {u : DiscoveryService} {now : UInt64} (hsweep : sweep? lib t l = some (u, now))
    {p : DiscoveryPeer} (hp : p ∈ u.discoveredPeers) (hid : p.deviceId = idA) :
    p ∈ (u.removeStalePeers now).discoveredPeers ∧ p ∈ t'.discoveredPeers := by
  obtain ⟨table, hI⟩ := TableInvariant.run (TableInvariant.init hinitB) ht
  have hidB : t.selfPeer.deviceId = idB := by
    obtain ⟨state, hself⟩ := (SpeaksFor.run (SpeaksFor.init hinitB) ht).selfPeer
    rw [hself]
  obtain ⟨hnow, -⟩ := sweep_tracks hI hsweep
  have hnowB : now ∈ readings lsB :=
    List.mem_flatMap.2 ⟨l, hpre.subset (by simp), hnow⟩
  have hclock : (readings (ls ++ [l])).Pairwise (· ≤ ·) := by
    obtain ⟨rest, rfl⟩ := hpre
    rw [readings, List.flatMap_append] at hclockB
    exact (List.pairwise_append.1 hclockB).1
  -- a recent broadcast of `a` was handled
  obtain ⟨hpayloads, hgaps, hon⟩ := gaps_sent hinitA hA halive hclockA hticking
    fun r hr => List.mem_append_left _ hr
  obtain ⟨i, payload, time, hsent, ⟨msg, clock, peer, hmsg, hpayload, hpeer, htime, -⟩, hrecent⟩ :=
    hcarries.exists_recent hpre hnow hgaps (hon now (List.mem_append_right _ hnowB)) hhandled
  -- and was logged as a message of `a`
  have hlog : (peer, clock.seen) ∈ acceptedLog lib t.selfPeer.deviceId (ls ++ [l]) := by
    refine List.mem_filterMap.2 ⟨_, hmsg, ?_⟩
    rw [Step.accepted, hidB, hpeer]
    rfl
  have hpeerId : peer.deviceId = idA := by
    have hmem : msg.payload ∈ a.broadcasts := by
      rw [← hpayloads, hpayload]
      exact List.mem_map_of_mem (List.mem_of_getElem? hsent)
    obtain ⟨decoded, hdecode, hdeviceId⟩ := decode_of_acceptedPeer hpeer
    rw [hdeviceId, (SpeaksFor.run (SpeaksFor.init hinitA) hA).deviceId_of_decode hlib hmem hdecode]
  have hkept : p ∈ (u.removeStalePeers now).discoveredPeers := by
    refine sweep_keeps hI hclock hsweep hlog ?_ hp (hid.trans hpeerId.symm)
    have htime := UInt64.le_iff_toNat_le.1 htime
    rw [broadcastGap] at hrecent
    omega
  exact ⟨hkept, by rwa [discoveredPeers_of_sweep hstep hsweep]⟩

/-- The updates of a device that was started at the time 1000; the third one broadcasts. -/
def DiscoveryService.threeTicks : List DiscoveryService.Step :=
  [.update 3000 3000, .update 5000 5000, .update 7000 7000]

/-- A device hears a payload at the time 1500, and updates at 7500. -/
def DiscoveryService.heardOnce (payload : StdString) : List DiscoveryService.Step :=
  [.message ⟨⟨.ofString "10.0.0.2"⟩, .self, payload⟩ ⟨1500, 1500, 1500⟩, .update 7500 7500]

namespace DiscoveryService

/-- What the first device says. -/
def hello : Option StdString :=
  (DiscoveryPeer.encode JsonText.nlohmann ⟨letterId 0, [], selfIpAddress, [], .idle⟩).toOption

/-- The first broadcast is handled, the second one is lost, and the third one is on its way. -/
theorem heardOnce_carries {payload : StdString} {peer : DiscoveryPeer}
    (hpeer : acceptedPeer JsonText.nlohmann (letterId 1)
      ⟨⟨.ofString "10.0.0.2"⟩, .self, payload⟩ = some peer) :
    Carries JsonText.nlohmann (letterId 1) [(payload, 1000), (payload, 1000), (payload, 7000)]
      (fun i => i = 1) 1000 1 (heardOnce payload) := by
  constructor
  · rintro i payload' time hget - ls l hpre ⟨r, hr, hlt⟩
    have htimes : payload' = payload ∧ (time = 1000 ∨ time = 7000) := by
      have hmem := List.mem_of_getElem? hget
      simp only [List.mem_cons, Prod.mk.injEq, List.not_mem_nil, or_false] at hmem
      tauto
    obtain ⟨rfl, htime⟩ := htimes
    have hinits := (List.mem_inits _ _).2 hpre
    simp only [heardOnce, List.inits, List.map_cons, List.map_nil, List.mem_cons,
      List.not_mem_nil, or_false] at hinits
    rcases hinits with hnil | hone | htwo
    · simp at hnil
    · -- nothing is due when the payload is heard
      have hone : ls ++ [l] = [] ++ [_] := hone
      obtain ⟨-, hl⟩ := List.append_inj' hone rfl
      obtain rfl := List.singleton_inj.1 hl
      obtain rfl : r = 1500 := by simpa [Step.readings] using hr
      rcases htime with rfl | rfl <;> exact absurd hlt (by decide)
    · have htwo : ls ++ [l] = [_] ++ [_] := htwo
      obtain ⟨rfl, hl⟩ := List.append_inj' htwo rfl
      obtain rfl := List.singleton_inj.1 hl
      obtain rfl : r = 7500 := by simpa [Step.readings] using hr
      rcases htime with rfl | rfl
      · -- what was sent at 1000 was heard at 1500
        exact ⟨_, _, peer, List.mem_cons_self, rfl, hpeer, by decide, by decide⟩
      · exact absurd hlt (by decide)
  · intro i payload' time hget hhandles n hlost
    by_contra hmore
    have hfirst := (hlost (i + 1) (by omega) (by omega)).2
    have hsecond := (hlost (i + 2) (by omega) (by omega)).2
    omega

end DiscoveryService

open DiscoveryService in
/-- A device of which one broadcast was heard is kept 6000 ms later. -/
theorem live_peer_kept_lossy : ∃ a₀ b₀ payload t t' u p,
    init JsonText.nlohmann (letterId 0) [] [] 1000 1000 = .ok a₀ ∧
    init JsonText.nlohmann (letterId 1) [] [] 1000 1000 = .ok b₀ ∧
    sent JsonText.nlohmann a₀ 1000 1000 threeTicks =
      [(payload, 1000), (payload, 1000), (payload, 7000)] ∧
    (machine JsonText.nlohmann).run b₀ ((heardOnce payload).take 1) = some t ∧
    step JsonText.nlohmann t (.update 7500 7500) = some t' ∧
    sweep? JsonText.nlohmann t (.update 7500 7500) = some (u, 7500) ∧
    p.deviceId = letterId 0 ∧ p ∈ t'.discoveredPeers := by
  have hrunA : ∃ payload ∈ hello,
      ∃ a₀ ∈ (init JsonText.nlohmann (letterId 0) [] [] 1000 1000).toOption,
      ∃ a ∈ (machine JsonText.nlohmann).run a₀ threeTicks,
      sent JsonText.nlohmann a₀ 1000 1000 threeTicks =
        [(payload, 1000), (payload, 1000), (payload, 7000)] := by
    decide +kernel
  obtain ⟨payload, hpayload, a₀, ha₀, a, ha, hsent⟩ := hrunA
  -- the other device is evaluated for any payload, as the states of the first are not closed
  have hrunB : ∀ payload ∈ hello,
      ∃ b₀ ∈ (init JsonText.nlohmann (letterId 1) [] [] 1000 1000).toOption,
      ∃ t ∈ (machine JsonText.nlohmann).run b₀ ((heardOnce payload).take 1),
      ∃ t' ∈ (machine JsonText.nlohmann).step t (.update 7500 7500),
      ∃ v ∈ sweep? JsonText.nlohmann t (.update 7500 7500), v.2 = 7500 ∧
      ∃ p ∈ v.1.discoveredPeers, p.deviceId = letterId 0 := by
    decide +kernel
  obtain ⟨b₀, hb₀, t, ht, t', ht', ⟨u, now⟩, hsweep, rfl, p, hp, hid⟩ := hrunB payload hpayload
  have hpeer : ∀ payload ∈ hello, ∃ peer ∈ acceptedPeer JsonText.nlohmann (letterId 1)
      ⟨⟨.ofString "10.0.0.2"⟩, .self, payload⟩, peer.deviceId = letterId 0 := by
    decide +kernel
  obtain ⟨peer, hpeer, -⟩ := hpeer payload hpayload
  have hinitA : init JsonText.nlohmann (letterId 0) [] [] 1000 1000 = .ok a₀ :=
    Except.eq_ok_of_toOption ha₀
  have hinitB : init JsonText.nlohmann (letterId 1) [] [] 1000 1000 = .ok b₀ :=
    Except.eq_ok_of_toOption hb₀
  have hB : (machine JsonText.nlohmann).run b₀ (heardOnce payload) = some t' :=
    Machine.run_concat_eq_some.2 ⟨t, ht, ht'⟩
  have hticking : Ticking 2000 1000 threeTicks
      (1000 :: readings threeTicks ++ readings (heardOnce payload)) := by
    have hreadings : readings (heardOnce payload) = [1500, 1500, 1500, 7500, 7500] := rfl
    have hticks : (1000 :: ticks threeTicks).map UInt64.toNat = [1000, 3000, 5000, 7000] := rfl
    have hmax : (1000 :: readings threeTicks ++ readings (heardOnce payload)).all (· ≤ 9000) := by
      rw [hreadings]
      decide
    refine ⟨by rw [hticks]; decide, fun r hr u hu => ?_⟩
    rw [hticks] at hu
    obtain rfl := Option.some.inj hu
    exact UInt64.le_iff_toNat_le.1 (of_decide_eq_true (List.all_eq_true.1 hmax r hr))
  have hcarries := heardOnce_carries hpeer
  rw [← hsent] at hcarries
  have hclockB : (readings (heardOnce payload)).Pairwise (· ≤ ·) := by
    have hreadings : readings (heardOnce payload) = [1500, 1500, 1500, 7500, 7500] := rfl
    rw [hreadings]
    decide
  have hhandled : ∃ (i : ℕ) (payload' : StdString) (time : UInt64),
      (sent JsonText.nlohmann a₀ 1000 1000 threeTicks)[i]? = some (payload', time) ∧
        Handles JsonText.nlohmann (letterId 1) 1000 payload' time (heardOnce payload) := by
    refine ⟨0, payload, 1000, by rw [hsent]; rfl, _, _, peer, List.mem_cons_self, rfl, hpeer, ?_⟩
    decide
  have hstep : step JsonText.nlohmann t (.update 7500 7500) = some t' := ht'
  have hkept := live_peer_kept JsonText.lawful hinitA ha (by simp [threeTicks]) hinitB hB
    (by decide) hclockB hticking hcarries (by decide) (List.prefix_refl (heardOnce payload)) ht
    hstep hhandled hsweep hp hid
  exact ⟨a₀, b₀, payload, t, t', u, p, hinitA, hinitB, hsent, ht, hstep, hsweep, hid, hkept.2⟩

end Keyleport
