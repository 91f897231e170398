import Keyleport.Discovery.Convergence
import Keyleport.Discovery.Presence

/-!
# Who is listed when devices come and go

Between devices of the program the list of devices is decided by the last datagram that was taken
from each. A device that runs and was heard in the last 15 seconds is listed, one that has left is
forgotten 15 seconds after its last datagram at the latest, also if it did not say farewell or its
farewell was lost or overtaken, and nothing but devices is ever listed.

* `Presence.accepted_of_state`: what the callback makes of the datagram of a device.
* `Presence.listed`: the table of a device after an update.
* `Presence.Departed`: a device that has left, with nothing in flight to another.
* `present_devices_listed_iff`, `running_device_listed`, `departed_device_forgotten`,
  `no_phantom_devices`: the results for a device and all it hears.
-/

namespace Keyleport

namespace Presence

open Discovery (Setup Step readings readings_concat)

variable {D : Type} [DecidableEq D] {setup : Setup D} {ls : List (Step D)} {w w' : Presence D}
variable {d x : D} {s : DiscoveryService}

/-! ## What was heard -/

/-- A datagram that a device could accept of another one. -/
def Hears (setup : Setup D) (d x : D) : Prop := x ≠ d ∧ setup.ip x ≠ DiscoveryService.selfIpAddress

omit [DecidableEq D] in
theorem isSelf_eq_false_iff :
    DiscoveryService.isSelf (setup.deviceId d) (setup.peer x) = false ↔ Hears setup d x := by
  have hid : (setup.peer x).deviceId = setup.deviceId d ↔ x = d :=
    setup.deviceId_injective.eq_iff
  have hip : (setup.peer x).ipAddress = setup.ip x := rfl
  rw [DiscoveryService.isSelf, decide_eq_false_iff_not, hid, hip, not_or]
  exact And.comm

omit [DecidableEq D] in
/-- A datagram in which `x` says that it is in some state. -/
theorem accepted_of_state {payload : StdString} {t : UInt64} (state : DiscoveryPeerState)
    (h : DiscoveryPeer.encode setup.lib { setup.selfPeer x with state := state } = .ok payload) :
    accepted setup d ((x, payload), t) =
      if DiscoveryService.isSelf (setup.deviceId d) (setup.peer x) then none
      else some ({ setup.peer x with state := state }, t) := by
  rw [accepted, DiscoveryService.acceptedPeer, DiscoveryPeer.decode_encode setup.lawful h]
  change Option.map _ (if DiscoveryService.isSelf (setup.deviceId d) (setup.peer x) then none
    else some { setup.peer x with state := state }) = _
  split <;> rfl

omit [DecidableEq D] in
/-- What was accepted of a datagram is the state of its sender, who is another device. -/
theorem accepted_eq_some {payload : StdString} {t : UInt64} {e : DiscoveryPeer × UInt64}
    (hsaid : Said setup w x payload) (h : accepted setup d ((x, payload), t) = some e) :
    Hears setup d x ∧ e.2 = t ∧
      ((setup.selfPeer x).encode setup.lib = .ok payload ∧ e.1 = setup.peer x ∨
        ¬ w.Up x ∧ e.1 = { setup.peer x with state := .gone }) := by
  rcases hsaid.2 with hencode | ⟨hup, hencode⟩
  · have heq := accepted_of_state (d := d) (t := t) .idle hencode
    rw [h] at heq
    split at heq
    next => cases heq
    next hself =>
      obtain rfl := Option.some.inj heq
      exact ⟨isSelf_eq_false_iff.1 (Bool.eq_false_iff.2 hself), rfl, Or.inl ⟨hencode, rfl⟩⟩
  · have heq := accepted_of_state (d := d) (t := t) .gone hencode
    rw [h] at heq
    split at heq
    next => cases heq
    next hself =>
      obtain rfl := Option.some.inj heq
      exact ⟨isSelf_eq_false_iff.1 (Bool.eq_false_iff.2 hself), rfl, Or.inr ⟨hup, rfl⟩⟩

omit [DecidableEq D] in
/-- The id of what was accepted is that of the sender. -/
theorem deviceId_of_accepted {payload : StdString} {t : UInt64} {e : DiscoveryPeer × UInt64}
    (hsaid : Said setup w x payload) (h : accepted setup d ((x, payload), t) = some e) :
    e.1.deviceId = setup.deviceId x := by
  rcases (accepted_eq_some hsaid h).2.2 with ⟨-, heq⟩ | ⟨-, heq⟩
  · rw [heq]
    rfl
  · rw [heq]
    rfl

omit [DecidableEq D] in
/-- What a device can hear of another one it accepts. -/
theorem isSome_accepted {payload : StdString} {t : UInt64} (hsaid : Said setup w x payload)
    (hx : Hears setup d x) : (accepted setup d ((x, payload), t)).isSome := by
  rcases hsaid.2 with hencode | ⟨-, hencode⟩
  · rw [accepted_of_state .idle hencode, isSelf_eq_false_iff.2 hx]
    rfl
  · rw [accepted_of_state .gone hencode, isSelf_eq_false_iff.2 hx]
    rfl

/-- The latest accepted message of a device is that of the last datagram heard of it. -/
theorem latest_accepted {heard : List ((D × StdString) × UInt64)}
    (hsaid : ∀ e ∈ heard, Said setup w e.1.1 e.1.2) (hx : Hears setup d x) :
    TimedTable.latest DiscoveryPeer.deviceId (heard.filterMap (accepted setup d))
        (setup.deviceId x) =
      (TimedTable.latest Prod.fst heard x).bind (accepted setup d) := by
  refine TimedTable.latest_filterMap (fun e he e' he' => ?_) fun e he heq => ?_
  · rw [deviceId_of_accepted (hsaid e he) he']
    exact setup.deviceId_injective.eq_iff
  · obtain rfl := heq
    exact isSome_accepted (hsaid e he) hx

/-! ## The table after an update -/

/-- After an update the table of a device that runs holds the devices that were heard last in the
window of the timeout, and not saying farewell. -/
theorem listed {broadcast stale : UInt64}
    (h : (machine setup).run Presence.empty (ls ++ [.tick d broadcast stale]) = some w)
    (hs : w.service d = some s) (hup : s.broadcastServer = true)
    (hclock : (readings d (ls ++ [.tick d broadcast stale])).Pairwise (· ≤ ·)) :
    s.availableDevices = s.discoveredPeers.map DiscoveryService.candidateOf ∧
      ∀ p, p ∈ s.discoveredPeers ↔ ∃ x payload t, Hears setup d x ∧
        TimedTable.latest Prod.fst (w.heard d) x = some ((x, payload), t) ∧
        (setup.selfPeer x).encode setup.lib = .ok payload ∧
        stale.toNat ≤ t.toNat + 15000 ∧ p = setup.peer x := by
  obtain ⟨w₁, h₁, hstep⟩ := Machine.run_concat_eq_some.1 h
  have hI := Invariant.run h₁
  obtain ⟨s₁, s', hs₁, hupdate, -, hservice, hheard, -⟩ := act_eq_some hstep
  obtain rfl : s' = s := by
    rw [hservice, Function.update_self] at hs
    exact Option.some.inj hs
  obtain ⟨-, steps, hfollows⟩ := hI.services d s₁ hs₁
  obtain ⟨first, second, s₀, hinit, hrun, hrs⟩ := hfollows.run
  have hnew : (DiscoveryService.Step.accepted setup.lib (setup.deviceId d)
      (.update broadcast stale)).toList = [].filterMap (accepted setup d) := rfl
  obtain ⟨hfollows', -, hserver⟩ := hfollows.step hupdate hnew
  have hclock' : (DiscoveryService.readings (steps ++ [.update broadcast stale])).Pairwise
      (· ≤ ·) := by
    have hsplit : readings d (ls ++ [.tick d broadcast stale]) =
        [first, second] ++ DiscoveryService.readings (steps ++ [.update broadcast stale]) := by
      simp [readings_concat, hrs, Step.readings, DiscoveryService.readings,
        DiscoveryService.Step.readings]
    rw [hsplit] at hclock
    exact (List.pairwise_append.1 hclock).2.1
  obtain ⟨hlist, hmem⟩ := DiscoveryService.mem_discoveredPeers_iff hinit
    (hfollows.up (hserver hup)) (Machine.run_concat_eq_some.2 ⟨s₁, hrun, hupdate⟩) hclock'
  have hid : s'.selfPeer.deviceId = setup.deviceId d := hfollows'.running.deviceId
  refine ⟨hlist, fun p => ?_⟩
  rw [hmem, hid, hfollows.log, hheard]
  constructor
  · rintro ⟨t, hlatest, hgone, hrecent⟩
    -- the message is one of a device, so the latest of it
    obtain ⟨⟨⟨x, payload⟩, time⟩, he, haccepted⟩ :=
      List.mem_filterMap.1 (TimedTable.mem_of_latest hlatest)
    have hx := (accepted_eq_some (hI.heard d _ he) haccepted).1
    have hpx : p.deviceId = setup.deviceId x := deviceId_of_accepted (hI.heard d _ he) haccepted
    rw [hpx, latest_accepted (hI.heard d) hx] at hlatest
    obtain ⟨⟨⟨x', payload'⟩, t'⟩, hlast, haccepted'⟩ := Option.bind_eq_some_iff.1 hlatest
    obtain rfl : x' = x := TimedTable.key_of_latest hlast
    have hsaid := hI.heard d _ (TimedTable.mem_of_latest hlast)
    obtain ⟨-, ht, ⟨hencode, hp⟩ | ⟨-, hp⟩⟩ := accepted_eq_some hsaid haccepted'
    · have ht : t = t' := ht
      subst ht
      exact ⟨x', payload', t, hx, hlast, hencode, hrecent, hp⟩
    · have hp : p.state = .gone := congrArg DiscoveryPeer.state hp
      exact absurd hp hgone
  · rintro ⟨x, payload, t, hx, hlast, hencode, hrecent, rfl⟩
    have hidle : (setup.peer x).state = .idle := rfl
    have hid' : (setup.peer x).deviceId = setup.deviceId x := rfl
    refine ⟨t, ?_, by simp [hidle], hrecent⟩
    rw [hid', latest_accepted (hI.heard d) hx, hlast, Option.bind_some,
      accepted_of_state .idle hencode, isSelf_eq_false_iff.2 hx]
    rfl

/-! ## Departures -/

/-- A device that has left, with nothing of it in flight to `d`. -/
structure Departed (w : Presence D) (x d : D) : Prop where
  started : x ∈ w.started
  down : ¬ w.Up x
  inFlight : ∀ payload, (x, d, payload) ∉ w.inFlight

/-- Nothing more is heard of a device that has departed. -/
theorem Departed.step (hI : Invariant setup ls w) (hx : Departed w x d) {l : Step D}
    (h : Presence.step setup w l = some w') :
    Departed w' x d ∧ ∀ e ∈ w'.heard d, e.1.1 = x → e ∈ w.heard d := by
  obtain ⟨-, hlater⟩ := hI.step h
  have hstarted := hlater.started x hx.started
  have hdown : ¬ w'.Up x := fun hup => hx.down (hlater.up x hx.started hup)
  suffices (∀ payload, (x, d, payload) ∈ w'.inFlight → (x, d, payload) ∈ w.inFlight) ∧
      ∀ e ∈ w'.heard d, e.1.1 = x → e ∈ w.heard d from
    ⟨⟨hstarted, hdown, fun payload hp => hx.inFlight payload (this.1 payload hp)⟩, this.2⟩
  rcases step_cases h with ⟨d', first, second, s, rfl, hd', -, rfl⟩ | ⟨d', own, w₀, hown, hact⟩ |
    ⟨d', s, rfl, -, rfl⟩ | ⟨F, hF, rfl, -⟩
  · refine ⟨fun payload hp => ?_, fun e he _ => he⟩
    rcases List.mem_append.1 hp with hp | hp
    · exact hp
    · obtain ⟨rfl, -, -⟩ := Discovery.mem_announcements.1 hp
      exact absurd hx.started hd'
  · have htakes := hown.takes
    obtain ⟨s, s', hs, hstep, -, -, hheard', hflight'⟩ := act_eq_some hact
    rw [htakes.service] at hs
    refine ⟨fun payload hp => ?_, fun e he heq => ?_⟩
    · rw [hflight'] at hp
      rcases List.mem_append.1 hp with hp | hp
      · exact htakes.inFlight _ hp
      · -- only a device that runs says something
        obtain ⟨rfl, -, hp⟩ := Discovery.mem_announcements.1 hp
        obtain ⟨-, steps, hfollows⟩ := hI.services x s hs
        obtain ⟨new, -, -, -, hnew⟩ := htakes.heard
        have hspeaks := (hfollows.step hstep hnew).2.1
        exact absurd ⟨s, hs, (hspeaks payload hp).1⟩ hx.down
    · rw [hheard'] at he
      by_cases hd : d = d'
      · subst hd
        obtain ⟨new, hheard, hflight, -⟩ := htakes.heard
        rw [hheard] at he
        rcases List.mem_append.1 he with he | he
        · exact he
        · obtain rfl := heq
          exact absurd (hflight e he) (hx.inFlight _)
      · rw [(htakes.others d hd).1] at he
        exact he
  · exact ⟨fun payload hp => hp, fun e he _ => he⟩
  · exact ⟨fun payload hp => hF _ hp, fun e he _ => he⟩

theorem Departed.run {ls' : List (Step D)} (h₀ : (machine setup).run Presence.empty ls = some w)
    (hx : Departed w x d) (h : (machine setup).run w ls' = some w') :
    ∀ e ∈ w'.heard d, e.1.1 = x → e ∈ w.heard d := by
  suffices Departed w' x d ∧ ∀ e ∈ w'.heard d, e.1.1 = x → e ∈ w.heard d from this.2
  refine Machine.run_induction (motive := fun _ w' =>
    Departed w' x d ∧ ∀ e ∈ w'.heard d, e.1.1 = x → e ∈ w.heard d) ⟨hx, fun e he _ => he⟩ ?_ h
  intro ms t l t' hrun ⟨hdeparted, hheard⟩ hstep
  have hI : Invariant setup (ls ++ ms) t := by
    refine Invariant.run ?_
    rw [Machine.run_append, h₀]
    exact hrun
  obtain ⟨hdeparted', hkept⟩ := hdeparted.step hI hstep
  exact ⟨hdeparted', fun e he heq => hheard e (hkept e he heq) heq⟩

end Presence

open Presence in
/-- Presence. Devices come and go at any time, and datagrams are lost, duplicated and reordered.
After every update of a device that runs, on a clock that does not step back: the list of devices
shows exactly the other devices, those on the loopback address excepted, of which the last datagram
that was taken from the network is no farewell and no older than 15 seconds, idle and with their
true names and addresses. -/
theorem present_devices_listed_iff {D : Type} [DecidableEq D] {setup : Discovery.Setup D}
    {ls : List (Discovery.Step D)} {w : Presence D} {d : D} {s : DiscoveryService}
    {broadcast stale : UInt64}
    (h : (machine setup).run empty (ls ++ [.tick d broadcast stale]) = some w)
    (hs : w.service d = some s) (hup : s.broadcastServer = true)
    (hclock : (Discovery.readings d (ls ++ [.tick d broadcast stale])).Pairwise (· ≤ ·))
    (c : ConnectionCandidate) :
    c ∈ s.availableDevices ↔ ∃ x payload t, x ≠ d ∧
      setup.ip x ≠ DiscoveryService.selfIpAddress ∧
      TimedTable.latest Prod.fst (w.heard d) x = some ((x, payload), t) ∧
      (setup.selfPeer x).encode setup.lib = .ok payload ∧ stale.toNat ≤ t.toNat + 15000 ∧
      c = ⟨false, setup.deviceName x, setup.ip x, DiscoveryService.defaultPeerPort⟩ := by
  obtain ⟨hlist, hmem⟩ := listed h hs hup hclock
  rw [hlist, List.mem_map]
  constructor
  · rintro ⟨p, hp, rfl⟩
    obtain ⟨x, payload, t, ⟨hne, hip⟩, hlast, hencode, hrecent, rfl⟩ := (hmem p).1 hp
    exact ⟨x, payload, t, hne, hip, hlast, hencode, hrecent, rfl⟩
  · rintro ⟨x, payload, t, hne, hip, hlast, hencode, hrecent, rfl⟩
    exact ⟨_, (hmem _).2 ⟨x, payload, t, ⟨hne, hip⟩, hlast, hencode, hrecent, rfl⟩, rfl⟩

/-- Both devices of a test start, and `true` takes a datagram of `false`. -/
def Presence.startAndHear : List (Discovery.Step Bool) :=
  [.start true 0 0, .start false 0 0, .deliver true 3 ⟨10, 10, 10⟩]

open Presence in
/-- The farewell of `false` is still in flight, so `true` lists it for what it heard of it. -/
theorem present_devices_listed_iff_farewell : ∃ w s,
    (machine Discovery.twoDevices).run empty
      (startAndHear ++ [.leave false 20] ++ [.tick true 30 40]) = some w ∧
    w.service true = some s ∧ s.availableDevices ≠ [] ∧ ∃ x payload t, x ≠ true ∧
      TimedTable.latest Prod.fst (w.heard true) x = some ((x, payload), t) ∧
      (Discovery.twoDevices.selfPeer x).encode Discovery.twoDevices.lib = .ok payload := by
  have hrun : ∃ w ∈ (machine Discovery.twoDevices).run empty
      (startAndHear ++ [.leave false 20] ++ [.tick true 30 40]), ∃ s ∈ w.service true,
        s.broadcastServer = true ∧ s.availableDevices ≠ [] := by
    decide +kernel
  obtain ⟨w, hw, s, hs, hup, hne⟩ := hrun
  obtain ⟨c, hc⟩ := List.exists_mem_of_ne_nil _ hne
  obtain ⟨x, payload, t, hx, -, hlast, hencode, -⟩ :=
    (present_devices_listed_iff hw hs hup (by decide) c).1 hc
  exact ⟨w, s, hw, hs, hne, x, payload, t, hx, hlast, hencode⟩

open Presence in
/-- After every update of a device that runs, another one that runs too and is not on the loopback
address is listed if any datagram of it was taken from the network in the last 15 seconds. -/
theorem running_device_listed {D : Type} [DecidableEq D] {setup : Discovery.Setup D}
    {ls : List (Discovery.Step D)} {w : Presence D} {d x : D} {s : DiscoveryService}
    {broadcast stale t : UInt64} {payload : StdString}
    (h : (machine setup).run empty (ls ++ [.tick d broadcast stale]) = some w)
    (hs : w.service d = some s) (hup : s.broadcastServer = true)
    (hclock : (Discovery.readings d (ls ++ [.tick d broadcast stale])).Pairwise (· ≤ ·))
    (hx : w.Up x) (hne : x ≠ d) (hip : setup.ip x ≠ DiscoveryService.selfIpAddress)
    (hheard : ((x, payload), t) ∈ w.heard d) (hrecent : stale.toNat ≤ t.toNat + 15000) :
    ⟨false, setup.deviceName x, setup.ip x, DiscoveryService.defaultPeerPort⟩ ∈
      s.availableDevices := by
  obtain ⟨hlist, hmem⟩ := listed h hs hup hclock
  have hI := Invariant.run h
  -- the last datagram is no earlier, and nothing it sent is a farewell
  obtain ⟨⟨⟨x', payload'⟩, t'⟩, hlast⟩ :
      ∃ e, TimedTable.latest Prod.fst (w.heard d) x = some e := by
    refine Option.ne_none_iff_exists'.1 fun hnone => ?_
    have hempty := List.getLast?_eq_none_iff.1 hnone
    exact absurd (List.mem_filter.2 ⟨hheard, by simp⟩) (hempty ▸ List.not_mem_nil)
  obtain rfl : x' = x := TimedTable.key_of_latest hlast
  have hsorted : (w.heard d).Pairwise fun e e' => e.2 ≤ e'.2 :=
    List.pairwise_map.1 (hclock.sublist (hI.times d))
  have hle : t ≤ t' := TimedTable.le_latest hsorted hheard hlast
  have hencode : (setup.selfPeer x').encode setup.lib = .ok payload' := by
    rcases (hI.heard d _ (TimedTable.mem_of_latest hlast)).2 with hencode | ⟨hdown, -⟩
    · exact hencode
    · exact absurd hx hdown
  have hrecent' : stale.toNat ≤ t'.toNat + 15000 := by
    have hle' := UInt64.le_iff_toNat_le.1 hle
    omega
  rw [hlist]
  exact List.mem_map_of_mem
    ((hmem _).2 ⟨x', payload', t', ⟨hne, hip⟩, hlast, hencode, hrecent', rfl⟩)

open Presence in
/-- `false` runs, so `true` lists it 15 seconds after it heard it. -/
theorem running_device_listed_heard : ∃ w s,
    (machine Discovery.twoDevices).run empty (startAndHear ++ [.tick true 30 15010]) = some w ∧
    w.service true = some s ∧
      ⟨false, [], .ofString "10.0.0.2", .ofString "8800"⟩ ∈ s.availableDevices := by
  have hrun : ∃ w ∈ (machine Discovery.twoDevices).run empty
      (startAndHear ++ [.tick true 30 15010]), ∃ s ∈ w.service true, s.broadcastServer = true ∧
        (∃ t ∈ w.service false, t.broadcastServer = true) ∧
        ∃ e ∈ w.heard true, e.1.1 = false ∧ e.2 = 10 := by
    decide +kernel
  obtain ⟨w, hw, s, hs, hup, ⟨t, ht, hup'⟩, ⟨⟨x, payload⟩, time⟩, he, rfl, rfl⟩ := hrun
  exact ⟨w, s, hw, hs, running_device_listed hw hs hup (by decide) ⟨t, ht, hup'⟩ (by decide)
    (by decide) he (by decide)⟩

open Presence in
/-- A device that has left, with or without a farewell, and of which nothing is in flight any more,
is forgotten: from 15 seconds after the last datagram of it, every entry of the table after an
update, and with it every listed device, is another one. -/
theorem departed_device_forgotten {D : Type} [DecidableEq D] {setup : Discovery.Setup D}
    {ls ls' : List (Discovery.Step D)} {w w' : Presence D} {d x : D} {s : DiscoveryService}
    {broadcast stale : UInt64} (h : (machine setup).run empty ls = some w)
    (hstarted : x ∈ w.started) (hdown : ¬ w.Up x)
    (hflight : ∀ payload, (x, d, payload) ∉ w.inFlight)
    (h' : (machine setup).run w (ls' ++ [.tick d broadcast stale]) = some w')
    (hs : w'.service d = some s) (hup : s.broadcastServer = true)
    (hclock : (Discovery.readings d (ls ++ (ls' ++ [.tick d broadcast stale]))).Pairwise (· ≤ ·))
    (hlate : ∀ payload t, ((x, payload), t) ∈ w.heard d → t.toNat + 15000 < stale.toNat) :
    s.availableDevices = s.discoveredPeers.map DiscoveryService.candidateOf ∧
      ∀ p ∈ s.discoveredPeers, ∃ y, y ≠ x ∧ y ≠ d ∧ p = setup.peer y := by
  have hrun : (machine setup).run empty ((ls ++ ls') ++ [.tick d broadcast stale]) = some w' := by
    rw [List.append_assoc, Machine.run_append, h]
    exact h'
  obtain ⟨hlist, hmem⟩ := listed hrun hs hup (by rwa [List.append_assoc])
  refine ⟨hlist, fun p hp => ?_⟩
  obtain ⟨y, payload, t, ⟨hne, -⟩, hlast, -, hrecent, rfl⟩ := (hmem p).1 hp
  refine ⟨y, ?_, hne, rfl⟩
  rintro rfl
  -- what was heard of it was heard before it had departed
  have hheard := Departed.run h ⟨hstarted, hdown, hflight⟩ h' _ (TimedTable.mem_of_latest hlast) rfl
  have hold := hlate payload t hheard
  omega

open Presence in
/-- The service of `false` is destroyed without a farewell, and its last datagram is lost. -/
theorem departed_device_forgotten_vanished : ∃ w w' s,
    (machine Discovery.twoDevices).run empty (startAndHear ++ [.vanish false, .lose 4]) = some w ∧
    (machine Discovery.twoDevices).run w ([.tick true 30 40] ++ [.tick true 15000 15011]) =
      some w' ∧
    w'.service true = some s ∧ s.availableDevices = [] := by
  have hrun : ∃ w ∈ (machine Discovery.twoDevices).run empty
      (startAndHear ++ [.vanish false, .lose 4]), w.service false = none ∧ false ∈ w.started ∧
        (∀ p ∈ w.inFlight, p.1 = false → p.2.1 ≠ true) ∧ (∀ e ∈ w.heard true, e.2 = 10) ∧
        ∃ w' ∈ (machine Discovery.twoDevices).run w
          ([.tick true 30 40] ++ [.tick true 15000 15011]),
        ∃ s ∈ w'.service true, s.broadcastServer = true := by
    decide +kernel
  obtain ⟨w, hw, hnone, hstarted, hflight, hheard, w', hw', s, hs, hup⟩ := hrun
  have hdown : ¬ w.Up false := fun ⟨t, ht, _⟩ => by simp [hnone] at ht
  have hlate : ∀ payload t, ((false, payload), t) ∈ w.heard true →
      t.toNat + 15000 < (15011 : UInt64).toNat := by
    intro payload t ht
    obtain rfl : t = 10 := hheard _ ht
    decide
  obtain ⟨hlist, hother⟩ := departed_device_forgotten hw hstarted hdown
    (fun payload hp => hflight _ hp rfl rfl) hw' hs hup (by decide) hlate
  refine ⟨w, w', s, hw, hw', hs, ?_⟩
  rw [hlist, List.map_eq_nil_iff, List.eq_nil_iff_forall_not_mem]
  intro p hp
  -- there is no third device
  obtain ⟨y, hfalse, htrue, -⟩ := hother p hp
  cases y <;> contradiction

open Presence in
/-- No phantoms. In every reachable state, on any clocks, every listed device is another one that
was started, not on the loopback address, with its true name and address and not busy, and it was
heard saying so. -/
theorem no_phantom_devices {D : Type} [DecidableEq D] {setup : Discovery.Setup D}
    {ls : List (Discovery.Step D)} {w : Presence D} {d : D} {s : DiscoveryService}
    (h : (machine setup).run empty ls = some w) (hs : w.service d = some s) :
    ∀ c ∈ s.availableDevices, ∃ x ∈ w.started, x ≠ d ∧
      setup.ip x ≠ DiscoveryService.selfIpAddress ∧
      c = ⟨false, setup.deviceName x, setup.ip x, DiscoveryService.defaultPeerPort⟩ ∧
      ∃ payload t, ((x, payload), t) ∈ w.heard d ∧
        (setup.selfPeer x).encode setup.lib = .ok payload := by
  intro c hc
  have hI := Invariant.run h
  obtain ⟨-, steps, hfollows⟩ := hI.services d s hs
  obtain ⟨first, second, s₀, hinit, hrun, -⟩ := hfollows.run
  obtain ⟨e, he, hgone, rfl⟩ := DiscoveryService.logged_of_listed hinit hrun c hc
  rw [hfollows.running.deviceId, hfollows.log] at he
  obtain ⟨⟨⟨x, payload⟩, t⟩, hheard, haccepted⟩ := List.mem_filterMap.1 he
  have hsaid := hI.heard d _ hheard
  obtain ⟨⟨hne, hip⟩, -, ⟨hencode, hp⟩ | ⟨-, hp⟩⟩ := accepted_eq_some hsaid haccepted
  · exact ⟨x, hsaid.1, hne, hip, by rw [hp]; rfl, payload, t, hheard, hencode⟩
  · have hp : e.1.state = .gone := congrArg DiscoveryPeer.state hp
    exact absurd hp hgone

open Presence in
/-- After the run above without the departure `true` lists `false`. -/
theorem no_phantom_devices_heard : ∃ w s,
    (machine Discovery.twoDevices).run empty startAndHear = some w ∧
    w.service true = some s ∧ s.availableDevices ≠ [] ∧ ∀ c ∈ s.availableDevices, ∃ x ∈ w.started,
      x ≠ true ∧ c.ip = Discovery.twoDevices.ip x := by
  have hrun : ∃ w ∈ (machine Discovery.twoDevices).run empty startAndHear,
      ∃ s ∈ w.service true, s.availableDevices ≠ [] := by
    decide +kernel
  obtain ⟨w, hw, s, hs, hne⟩ := hrun
  refine ⟨w, s, hw, hs, hne, fun c hc => ?_⟩
  obtain ⟨x, hx, hother, -, rfl, -⟩ := no_phantom_devices hw hs c hc
  exact ⟨x, hx, hother, rfl⟩

end Keyleport
