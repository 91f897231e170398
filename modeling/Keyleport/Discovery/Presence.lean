import Keyleport.Discovery.Network
import Keyleport.Discovery.SoftState

/-!
# Devices that come and go

The network of discovery services when devices leave. A device leaves with a `cleanup`, which says
so in a last broadcast, or its service is destroyed without one, as `HomeScene::willUnmount` does.
Whoever comes back is a new device, with a new id. Datagrams are delivered in any order, duplicated
and lost as before, so a farewell may arrive before what was sent earlier.

* `Presence.Running`: what a device says of itself, before and after its cleanup.
* `Presence.Follows`: a service is where its own steps and the datagrams it took have brought it.
* `Presence.Invariant`: what is in flight and what was heard was said by the device it names.
* `Presence.run_of_staying`: the network of devices that stay is a part of this one.
-/

namespace Keyleport

/-- The devices that were started, the services there are, the datagrams in flight, and what each
device has taken from the network, with the sender and the time. -/
structure Presence (D : Type) where
  started : List D
  service : D → Option DiscoveryService
  inFlight : List (D × D × StdString)
  heard : D → List ((D × StdString) × UInt64)

namespace Presence

open Discovery (Setup Step announcements carry mem_of_carry readings readings_concat)

/-- No device was started and nothing is in flight. -/
def empty {D : Type} : Presence D := ⟨[], fun _ => none, [], fun _ => []⟩

variable {D : Type} [DecidableEq D]

/-- The service of `d` takes a step; what it broadcasts is put in flight. -/
def act (setup : Setup D) (w : Presence D) (d : D) (l : DiscoveryService.Step) :
    Option (Presence D) :=
  match w.service d with
  | some s => do
      let s' ← DiscoveryService.step setup.lib s l
      let sent := s'.broadcasts.drop s.broadcasts.length
      return { w with
        service := Function.update w.service d (some s')
        inFlight := w.inFlight ++ announcements w.started d sent }
  | none => none

/-- The datagram at position `k` leaves the network, taken by `d` at `time`. -/
def take (w : Presence D) (d src : D) (k : ℕ) (payload : StdString) (time : UInt64) : Presence D :=
  { w with
    inFlight := w.inFlight.eraseIdx k
    heard := Function.update w.heard d (w.heard d ++ [((src, payload), time)]) }

/-- One step of the network. -/
def step (setup : Setup D) (w : Presence D) : Step D → Option (Presence D)
  | .start d first second =>
      if d ∈ w.started then none
      else do
        let s ← (DiscoveryService.init setup.lib (setup.deviceId d) (setup.deviceName d)
          (setup.platform d) first second).toOption
        let started := d :: w.started
        return { w with
          started := started
          service := Function.update w.service d (some s)
          inFlight := w.inFlight ++ announcements started d s.broadcasts }
  | .deliver d k clock =>
      match w.inFlight[k]? with
      | some (src, dst, payload) =>
          if dst = d then
            (w.take d src k payload clock.seen).act setup d
              (.message ⟨⟨setup.ip src⟩, Peer.self, payload⟩ clock)
          else none
      | none => none
  | .tick d broadcast stale => w.act setup d (.update broadcast stale)
  | .leave d now => w.act setup d (.cleanup now)
  | .vanish d => (w.service d).map fun _ => { w with service := Function.update w.service d none }
  | .duplicate k => (carry w.inFlight (.duplicate k)).map fun F => { w with inFlight := F }
  | .lose k => (carry w.inFlight (.lose k)).map fun F => { w with inFlight := F }

/-- The network as a machine. -/
def machine (setup : Setup D) : Machine (Presence D) (Step D) := ⟨step setup⟩

/-- The service of `d` runs: it is there and has not been cleaned up. -/
def Up (w : Presence D) (d : D) : Prop := ∃ s, w.service d = some s ∧ s.broadcastServer = true

/-! ## What a device says of itself -/

/-- The last state that a device sends: the own one, as gone. -/
def farewell (setup : Setup D) (d : D) : DiscoveryPeer := { setup.selfPeer d with state := .gone }

/-- A service of `d` is idle until its cleanup; after that it has gone, and says nothing more. -/
structure Running (setup : Setup D) (d : D) (s : DiscoveryService) : Prop where
  up : s.broadcastServer = true → s.selfPeer = setup.selfPeer d ∧ s.broadcastClient = true
  left : s.broadcastServer = false → s.selfPeer = farewell setup d ∧ s.broadcastClient = false

variable {setup : Setup D} {ls : List (Step D)} {w w' : Presence D} {d x : D}
variable {s s' : DiscoveryService}

omit [DecidableEq D] in
theorem Running.deviceId (h : Running setup d s) : s.selfPeer.deviceId = setup.deviceId d := by
  cases hserver : s.broadcastServer with
  | true =>
    rw [(h.up hserver).1]
    rfl
  | false =>
    rw [(h.left hserver).1]
    rfl

omit [DecidableEq D] in
theorem Running.init {first second : UInt64} (h : DiscoveryService.init setup.lib
    (setup.deviceId d) (setup.deviceName d) (setup.platform d) first second = .ok s) :
    Running setup d s ∧ s.broadcastServer = true ∧
      ∀ payload ∈ s.broadcasts, (setup.selfPeer d).encode setup.lib = .ok payload := by
  obtain ⟨-, hself, hclient, hserver, payload, hencode, hsent⟩ := DiscoveryService.init_spec h
  refine ⟨⟨fun _ => ⟨hself, hclient⟩, fun hfalse => ?_⟩, hserver, fun payload' hp => ?_⟩
  · rw [hserver] at hfalse
    cases hfalse
  · rw [hsent] at hp
    obtain rfl : payload' = payload := by simpa using hp
    rw [← hencode, hself]
    rfl

omit [DecidableEq D] in
theorem Running.of_same (h : Running setup d s) (hsame : DiscoveryService.SameSelf s s') :
    Running setup d s' := by
  refine ⟨fun hserver => ?_, fun hserver => ?_⟩
  · rw [hsame.selfPeer, hsame.broadcastClient]
    exact h.up (hsame.broadcastServer ▸ hserver)
  · rw [hsame.selfPeer, hsame.broadcastClient]
    exact h.left (hsame.broadcastServer ▸ hserver)

/-- What a step of `d` broadcasts: nothing after the cleanup, and its own state before. -/
def Speaks (setup : Setup D) (d : D) (s s' : DiscoveryService) : Prop :=
  ∀ payload ∈ s'.broadcasts.drop s.broadcasts.length, s.broadcastServer = true ∧
    ((setup.selfPeer d).encode setup.lib = .ok payload ∨
      s'.broadcastServer = false ∧ (farewell setup d).encode setup.lib = .ok payload)

omit [DecidableEq D] in
private theorem speaks_of_eq (h : s'.broadcasts = s.broadcasts) : Speaks setup d s s' := by
  intro payload hp
  rw [h, List.drop_length] at hp
  cases hp

private theorem broadcastClient_cleanup {lib : Nlohmann} {now : UInt64}
    (h : s.cleanup lib now = .ok s') : s'.broadcastClient = false := by
  rw [DiscoveryService.cleanup] at h
  split at h
  next =>
    obtain ⟨t, -, h⟩ := Except.bind_eq_ok_iff.1 h
    rw [← Except.ok.inj h]
  next => rw [← Except.ok.inj h]

omit [DecidableEq D] in
/-- The cleanup of a service that runs says farewell, and a second one says nothing. -/
theorem Running.cleanup {now : UInt64} (h : Running setup d s)
    (hs : s.cleanup setup.lib now = .ok s') :
    Running setup d s' ∧ s'.broadcastServer = false ∧ Speaks setup d s s' := by
  have hserver' : s'.broadcastServer = false := (DiscoveryService.cleanup_spec hs).2.2
  have hclient' : s'.broadcastClient = false := broadcastClient_cleanup hs
  have hup : s'.broadcastServer = true →
      s'.selfPeer = setup.selfPeer d ∧ s'.broadcastClient = true := by
    rw [hserver']
    nofun
  cases hserver : s.broadcastServer with
  | true =>
    obtain ⟨hself, hclient⟩ := h.up hserver
    rcases DiscoveryService.cleanup_cases hs with
      ⟨hclosed, -⟩ | ⟨-, hself', payload, hencode, hsent⟩
    · rw [hclient] at hclosed
      cases hclosed
    · rw [hself] at hself'
      refine ⟨⟨hup, fun _ => ⟨hself', hclient'⟩⟩, hserver', fun payload' hp => ⟨hserver, ?_⟩⟩
      rw [hsent, List.drop_left] at hp
      obtain rfl := List.mem_singleton.1 hp
      rw [hself'] at hencode
      exact Or.inr ⟨hserver', hencode⟩
  | false =>
    obtain ⟨hself, hclient⟩ := h.left hserver
    rcases DiscoveryService.cleanup_cases hs with ⟨-, hself', hsent⟩ | ⟨hopen, -⟩
    · exact ⟨⟨hup, fun _ => ⟨hself'.trans hself, hclient'⟩⟩, hserver', speaks_of_eq hsent⟩
    · rw [hclient] at hopen
      cases hopen

/-- After its cleanup a service broadcasts nothing in an update. -/
private theorem broadcasts_update_of_no_client {lib : Nlohmann} {broadcast stale : UInt64}
    (hclient : s.broadcastClient = false) (h : s.update lib broadcast stale = .ok s') :
    s'.broadcasts = s.broadcasts := by
  obtain ⟨t, ht, h⟩ := Except.bind_eq_ok_iff.1 h
  simp only [DiscoveryService.broadcastOwnState, hclient, Bool.and_false, Bool.false_eq_true,
    if_false, Except.ok.injEq] at ht
  obtain rfl := Except.ok.inj h
  rw [← ht]
  rfl

omit [DecidableEq D] in
/-- A step of a device that is no cleanup leaves it as it is. -/
theorem Running.step {l : DiscoveryService.Step} (h : Running setup d s)
    (hl : ∀ now, l ≠ .cleanup now) (hs : DiscoveryService.step setup.lib s l = some s') :
    Running setup d s' ∧ s'.broadcastServer = s.broadcastServer ∧ Speaks setup d s s' := by
  have hsays := DiscoveryService.says_of_step hl hs
  refine ⟨h.of_same hsays.toSameSelf, hsays.broadcastServer, ?_⟩
  cases hserver : s.broadcastServer with
  | true =>
    obtain ⟨new, hnew, hencode⟩ := hsays.broadcasts
    intro payload hp
    rw [hnew, List.drop_left] at hp
    refine ⟨hserver, Or.inl ?_⟩
    rw [← (h.up hserver).1]
    exact hencode payload hp
  | false =>
    refine speaks_of_eq ?_
    cases l with
    | message msg clock =>
      have hopen := (DiscoveryService.message_of_step hs).1
      rw [hserver] at hopen
      cases hopen
    | update broadcast stale =>
      exact broadcasts_update_of_no_client (h.left hserver).2 (Except.eq_ok_of_toOption hs)
    | cleanup now => exact absurd rfl (hl now)

/-! ## What a step does -/

/-- The part of a step of the network that is a step of the service of `d`, taken in the network
`w₀`: a delivery first takes the datagram. -/
inductive Own (setup : Setup D) (w : Presence D) :
    Step D → D → DiscoveryService.Step → Presence D → Prop where
  | deliver {d src : D} {k : ℕ} {payload : StdString} (clock : MessageClock)
      (h : w.inFlight[k]? = some (src, d, payload)) :
      Own setup w (.deliver d k clock) d (.message ⟨⟨setup.ip src⟩, Peer.self, payload⟩ clock)
        (w.take d src k payload clock.seen)
  | tick (d : D) (broadcast stale : UInt64) :
      Own setup w (.tick d broadcast stale) d (.update broadcast stale) w
  | leave (d : D) (now : UInt64) : Own setup w (.leave d now) d (.cleanup now) w

theorem act_eq_some {l : DiscoveryService.Step} (h : act setup w d l = some w') :
    ∃ s s', w.service d = some s ∧ DiscoveryService.step setup.lib s l = some s' ∧
      w'.started = w.started ∧ w'.service = Function.update w.service d (some s') ∧
      w'.heard = w.heard ∧ w'.inFlight = w.inFlight ++
        announcements w.started d (s'.broadcasts.drop s.broadcasts.length) := by
  rw [act] at h
  split at h
  next s hs =>
    obtain ⟨s', hs', hw'⟩ := Option.bind_eq_some_iff.1 h
    rw [← Option.some.inj hw']
    exact ⟨s, s', hs, hs', rfl, rfl, rfl, rfl⟩
  next => cases h

/-- A device starts, its service takes a step or is destroyed, or the network alone changes. -/
theorem step_cases {l : Step D} (h : step setup w l = some w') :
    (∃ d first second s, l = .start d first second ∧ d ∉ w.started ∧
      DiscoveryService.init setup.lib (setup.deviceId d) (setup.deviceName d) (setup.platform d)
        first second = .ok s ∧
      w' = { w with
        started := d :: w.started
        service := Function.update w.service d (some s)
        inFlight := w.inFlight ++ announcements (d :: w.started) d s.broadcasts }) ∨
    (∃ d own w₀, Own setup w l d own w₀ ∧ act setup w₀ d own = some w') ∨
    (∃ d s, l = .vanish d ∧ w.service d = some s ∧
      w' = { w with service := Function.update w.service d none }) ∨
    (∃ F, (∀ p ∈ F, p ∈ w.inFlight) ∧ w' = { w with inFlight := F } ∧ ∀ e, l.readings e = []) := by
  cases l with
  | start d first second =>
    simp only [step] at h
    split at h
    next => cases h
    next hd =>
      obtain ⟨s, hs, hw'⟩ := Option.bind_eq_some_iff.1 h
      exact Or.inl ⟨d, first, second, s, rfl, hd, Except.eq_ok_of_toOption hs,
        (Option.some.inj hw').symm⟩
  | deliver d k clock =>
    simp only [step] at h
    split at h
    next src dst payload hk =>
      split at h
      next hd =>
        subst hd
        exact Or.inr (Or.inl ⟨_, _, _, .deliver clock hk, h⟩)
      next => cases h
    next => cases h
  | tick d broadcast stale => exact Or.inr (Or.inl ⟨d, _, _, .tick d broadcast stale, h⟩)
  | leave d now => exact Or.inr (Or.inl ⟨d, _, _, .leave d now, h⟩)
  | vanish d =>
    obtain ⟨s, hs, hw'⟩ := Option.map_eq_some_iff.1 h
    exact Or.inr (Or.inr (Or.inl ⟨d, s, rfl, hs, hw'.symm⟩))
  | duplicate k =>
    obtain ⟨F, hF, hw'⟩ := Option.map_eq_some_iff.1 h
    exact Or.inr (Or.inr (Or.inr ⟨F, fun _ => mem_of_carry hF, hw'.symm, fun _ => rfl⟩))
  | lose k =>
    obtain ⟨F, hF, hw'⟩ := Option.map_eq_some_iff.1 h
    exact Or.inr (Or.inr (Or.inr ⟨F, fun _ => mem_of_carry hF, hw'.symm, fun _ => rfl⟩))

/-! ## The history of a device -/

/-- What the callback of `d` makes of a datagram it took: the state of another device. -/
def accepted (setup : Setup D) (d : D) (e : (D × StdString) × UInt64) :
    Option (DiscoveryPeer × UInt64) :=
  (DiscoveryService.acceptedPeer setup.lib (setup.deviceId d)
    ⟨⟨setup.ip e.1.1⟩, Peer.self, e.1.2⟩).map fun peer => (peer, e.2)

/-- The service `s` of `d` has come from `init` by the steps `steps`, at the readings `rs` and with
the datagrams `heard`. -/
structure Follows (setup : Setup D) (d : D) (heard : List ((D × StdString) × UInt64))
    (rs : List UInt64) (steps : List DiscoveryService.Step) (s : DiscoveryService) : Prop where
  run : ∃ first second s₀, DiscoveryService.init setup.lib (setup.deviceId d) (setup.deviceName d)
      (setup.platform d) first second = .ok s₀ ∧
    (DiscoveryService.machine setup.lib).run s₀ steps = some s ∧
    rs = [first, second] ++ DiscoveryService.readings steps
  log : DiscoveryService.acceptedLog setup.lib (setup.deviceId d) steps =
    heard.filterMap (accepted setup d)
  running : Running setup d s
  up : s.broadcastServer = true → ∀ now, DiscoveryService.Step.cleanup now ∉ steps

omit [DecidableEq D] in
/-- A step of the service that logs what it heard. -/
theorem Follows.step {heard new : List ((D × StdString) × UInt64)} {rs : List UInt64}
    {steps : List DiscoveryService.Step} {l : DiscoveryService.Step}
    (h : Follows setup d heard rs steps s) (hs : DiscoveryService.step setup.lib s l = some s')
    (hnew : (l.accepted setup.lib (setup.deviceId d)).toList = new.filterMap (accepted setup d)) :
    Follows setup d (heard ++ new) (rs ++ l.readings) (steps ++ [l]) s' ∧ Speaks setup d s s' ∧
      (s'.broadcastServer = true → s.broadcastServer = true) := by
  obtain ⟨first, second, s₀, hinit, hrun, hrs⟩ := h.run
  have hrun' : ∃ first second s₀, DiscoveryService.init setup.lib (setup.deviceId d)
        (setup.deviceName d) (setup.platform d) first second = .ok s₀ ∧
      (DiscoveryService.machine setup.lib).run s₀ (steps ++ [l]) = some s' ∧
      rs ++ l.readings = [first, second] ++ DiscoveryService.readings (steps ++ [l]) := by
    refine ⟨first, second, s₀, hinit, Machine.run_concat_eq_some.2 ⟨s, hrun, hs⟩, ?_⟩
    simp [hrs, DiscoveryService.readings, List.flatMap_append]
  have hlog : DiscoveryService.acceptedLog setup.lib (setup.deviceId d) (steps ++ [l]) =
      (heard ++ new).filterMap (accepted setup d) := by
    rw [List.filterMap_append, ← h.log, ← hnew, DiscoveryService.acceptedLog,
      List.filterMap_append]
    rfl
  by_cases hl : ∃ now, l = .cleanup now
  · obtain ⟨now, rfl⟩ := hl
    obtain ⟨hrunning, hserver, hspeaks⟩ := h.running.cleanup (Except.eq_ok_of_toOption hs)
    refine ⟨⟨hrun', hlog, hrunning, fun htrue => ?_⟩, hspeaks, fun htrue => ?_⟩
    · rw [hserver] at htrue
      cases htrue
    · rw [hserver] at htrue
      cases htrue
  · obtain ⟨hrunning, hserver, hspeaks⟩ := h.running.step (fun now heq => hl ⟨now, heq⟩) hs
    refine ⟨⟨hrun', hlog, hrunning, fun htrue now hmem => ?_⟩, hspeaks, fun h => hserver ▸ h⟩
    rcases List.mem_append.1 hmem with hmem | hmem
    · exact h.up (hserver ▸ htrue) now hmem
    · exact hl ⟨now, (List.mem_singleton.1 hmem).symm⟩

/-! ## The invariant -/

/-- The payload says of the device what it says of itself; a farewell only after it has left. -/
def Said (setup : Setup D) (w : Presence D) (src : D) (payload : StdString) : Prop :=
  src ∈ w.started ∧ ((setup.selfPeer src).encode setup.lib = .ok payload ∨
    ¬ w.Up src ∧ (farewell setup src).encode setup.lib = .ok payload)

/-- Devices only start, and those that have left do not come back. -/
structure Later (w w' : Presence D) : Prop where
  started : ∀ x ∈ w.started, x ∈ w'.started
  up : ∀ x ∈ w.started, w'.Up x → w.Up x

omit [DecidableEq D] in
theorem Said.later {src : D} {payload : StdString} (h : Said setup w src payload)
    (hlater : Later w w') : Said setup w' src payload :=
  ⟨hlater.started src h.1, h.2.imp_right fun ⟨hup, hencode⟩ =>
    ⟨fun hup' => hup (hlater.up src h.1 hup'), hencode⟩⟩

/-- The invariant of a run with the steps `ls`. -/
structure Invariant (setup : Setup D) (ls : List (Step D)) (w : Presence D) : Prop where
  services : ∀ d s, w.service d = some s → d ∈ w.started ∧
    ∃ steps, Follows setup d (w.heard d) (readings d ls) steps s
  /-- A device that was not started has heard nothing, and its clock was not read. -/
  idle : ∀ d, d ∉ w.started → w.heard d = [] ∧ readings d ls = []
  inFlight : ∀ src dst payload, (src, dst, payload) ∈ w.inFlight → Said setup w src payload
  heard : ∀ d, ∀ e ∈ w.heard d, Said setup w e.1.1 e.1.2
  /-- What was heard was handled at readings of the clock, in order. -/
  times : ∀ d, ((w.heard d).map Prod.snd).Sublist (readings d ls)

theorem Invariant.empty (setup : Setup D) : Invariant setup [] Presence.empty :=
  ⟨nofun, fun _ _ => ⟨rfl, rfl⟩, nofun, nofun, fun _ => List.Sublist.refl _⟩

/-- What a step of a device takes from the network, and what it leaves of it. -/
structure Takes (setup : Setup D) (w : Presence D) (l : Step D) (d : D)
    (own : DiscoveryService.Step) (w₀ : Presence D) : Prop where
  started : w₀.started = w.started
  service : w₀.service = w.service
  inFlight : ∀ p ∈ w₀.inFlight, p ∈ w.inFlight
  readings : l.readings d = own.readings
  others : ∀ e, e ≠ d → w₀.heard e = w.heard e ∧ l.readings e = []
  heard : ∃ new, w₀.heard d = w.heard d ++ new ∧
    (∀ e ∈ new, (e.1.1, d, e.1.2) ∈ w.inFlight) ∧
    (new.map Prod.snd).Sublist own.readings ∧
    (own.accepted setup.lib (setup.deviceId d)).toList = new.filterMap (accepted setup d)

theorem Own.takes {l : Step D} {own : DiscoveryService.Step} {w₀ : Presence D}
    (h : Own setup w l d own w₀) : Takes setup w l d own w₀ := by
  cases h with
  | @deliver _ src k payload clock hk =>
    refine ⟨rfl, rfl, fun p hp => List.mem_of_mem_eraseIdx hp, by simp [Step.readings,
      DiscoveryService.Step.readings], fun e he => ⟨?_, ?_⟩,
      [((src, payload), clock.seen)], ?_, ?_, ?_, ?_⟩
    · exact Function.update_of_ne he _ _
    · simp [Step.readings, he.symm]
    · exact Function.update_self _ _ _
    · rintro e he
      obtain rfl := List.mem_singleton.1 he
      exact List.mem_of_getElem? hk
    · simp [DiscoveryService.Step.readings]
    · simp only [DiscoveryService.Step.accepted, accepted, List.filterMap_cons, List.filterMap_nil]
      split
      next hnone => rw [hnone]; rfl
      next hsome => rw [hsome]; rfl
  | tick broadcast stale =>
    refine ⟨rfl, rfl, fun p hp => hp, by simp [Step.readings, DiscoveryService.Step.readings],
      fun e he => ⟨rfl, by simp [Step.readings, he.symm]⟩, [], by simp, by simp, by simp, rfl⟩
  | leave now =>
    refine ⟨rfl, rfl, fun p hp => hp, by simp [Step.readings, DiscoveryService.Step.readings],
      fun e he => ⟨rfl, by simp [Step.readings, he.symm]⟩, [], by simp, by simp, by simp, rfl⟩

/-- A step of one device, which announces nothing but its own state. -/
private theorem Invariant.of_device (hI : Invariant setup ls w) (hlater : Later w w') {l : Step D}
    (hservice : w'.service = Function.update w.service d (some s))
    (hstarted : ∀ e, e ∈ w'.started ↔ e = d ∨ e ∈ w.started)
    (hothers : ∀ e, e ≠ d → w'.heard e = w.heard e ∧ l.readings e = [])
    (hfollows : ∃ steps, Follows setup d (w'.heard d) (readings d (ls ++ [l])) steps s)
    (hheard : ∀ e ∈ w'.heard d, e ∈ w.heard d ∨ (e.1.1, d, e.1.2) ∈ w.inFlight)
    (htimes : ((w'.heard d).map Prod.snd).Sublist (readings d (ls ++ [l])))
    (hflight : ∀ src dst payload, (src, dst, payload) ∈ w'.inFlight →
      (src, dst, payload) ∈ w.inFlight ∨ Said setup w' src payload) :
    Invariant setup (ls ++ [l]) w' := by
  -- each part is checked at the device that took the step, and kept at the others
  have hkept : ∀ e, e ≠ d → w'.heard e = w.heard e ∧ readings e (ls ++ [l]) = readings e ls := by
    intro e he
    obtain ⟨hheard', hreadings⟩ := hothers e he
    rw [readings_concat, hreadings, List.append_nil]
    exact ⟨hheard', rfl⟩
  refine ⟨fun e t ht => ?_, fun e he => ?_, fun src dst payload hp => ?_, fun e f hf => ?_,
    fun e => ?_⟩
  · rw [hservice] at ht
    by_cases he : e = d
    · subst he
      rw [Function.update_self] at ht
      obtain rfl := Option.some.inj ht
      exact ⟨(hstarted e).2 (Or.inl rfl), hfollows⟩
    · rw [Function.update_of_ne he] at ht
      rw [(hkept e he).1, (hkept e he).2]
      exact ⟨hlater.started e (hI.services e t ht).1, (hI.services e t ht).2⟩
  · rw [hstarted, not_or] at he
    rw [(hkept e he.1).1, (hkept e he.1).2]
    exact hI.idle e he.2
  · rcases hflight src dst payload hp with hp | hsaid
    · exact (hI.inFlight src dst payload hp).later hlater
    · exact hsaid
  · by_cases he : e = d
    · subst he
      rcases hheard f hf with hf | hf
      · exact (hI.heard e f hf).later hlater
      · exact (hI.inFlight _ _ _ hf).later hlater
    · rw [(hkept e he).1] at hf
      exact (hI.heard e f hf).later hlater
  · by_cases he : e = d
    · subst he
      exact htimes
    · rw [(hkept e he).1, (hkept e he).2]
      exact hI.times e

/-- A step of the service of a device keeps the invariant. -/
private theorem Invariant.act (hI : Invariant setup ls w) {l : Step D}
    {own : DiscoveryService.Step} {w₀ : Presence D} (hown : Own setup w l d own w₀)
    (h : act setup w₀ d own = some w') : Invariant setup (ls ++ [l]) w' ∧ Later w w' := by
  have htakes := hown.takes
  obtain ⟨s, s', hs, hstep, hstarted, hservice, hheard', hflight'⟩ := act_eq_some h
  rw [htakes.service] at hs hservice
  rw [htakes.started] at hstarted
  obtain ⟨hd, steps, hfollows⟩ := hI.services d s hs
  obtain ⟨new, hheard, hflight, htimes, hnew⟩ := htakes.heard
  obtain ⟨hfollows', hspeaks, hserver⟩ := hfollows.step hstep hnew
  have hlater : Later w w' := by
    refine ⟨fun x hx => hstarted ▸ hx, fun x _ ⟨t, ht, hup⟩ => ?_⟩
    rw [hservice] at ht
    by_cases hx : x = d
    · subst hx
      rw [Function.update_self] at ht
      obtain rfl := Option.some.inj ht
      exact ⟨s, hs, hserver hup⟩
    · rw [Function.update_of_ne hx] at ht
      exact ⟨t, ht, hup⟩
  refine ⟨hI.of_device hlater hservice (fun e => ?_) (fun e he => ?_) ⟨steps ++ [own], ?_⟩
    (fun e he => ?_) ?_ fun src dst payload hp => ?_, hlater⟩
  · rw [hstarted]
    exact ⟨Or.inr, fun h => h.elim (fun heq => heq ▸ hd) id⟩
  · rw [hheard']
    exact htakes.others e he
  · rw [readings_concat, htakes.readings, hheard', hheard]
    exact hfollows'
  · rw [hheard', hheard] at he
    exact (List.mem_append.1 he).imp_right (hflight e)
  · rw [readings_concat, htakes.readings, hheard', hheard, List.map_append]
    exact (hI.times d).append htimes
  · rw [hflight'] at hp
    rcases List.mem_append.1 hp with hp | hp
    · exact Or.inl (htakes.inFlight _ hp)
    · -- what the device has just said of itself
      obtain ⟨rfl, -, hp⟩ := Discovery.mem_announcements.1 hp
      refine Or.inr ⟨hstarted ▸ hd, (hspeaks payload hp).2.imp_right ?_⟩
      rintro ⟨hgone, hsaid⟩
      refine ⟨fun ⟨t, ht, hup⟩ => ?_, hsaid⟩
      rw [hservice, Function.update_self] at ht
      obtain rfl := Option.some.inj ht
      rw [hgone] at hup
      cases hup

/-- The start of a device keeps the invariant. -/
private theorem Invariant.start (hI : Invariant setup ls w) {first second : UInt64}
    (hd : d ∉ w.started) (hinit : DiscoveryService.init setup.lib (setup.deviceId d)
      (setup.deviceName d) (setup.platform d) first second = .ok s)
    (hw' : w' = { w with
      started := d :: w.started
      service := Function.update w.service d (some s)
      inFlight := w.inFlight ++ announcements (d :: w.started) d s.broadcasts }) :
    Invariant setup (ls ++ [.start d first second]) w' ∧ Later w w' := by
  obtain ⟨hrunning, -, hspeaks⟩ := Running.init hinit
  have hlater : Later w w' := by
    subst hw'
    refine ⟨fun x hx => List.mem_cons_of_mem _ hx, fun x hx ⟨t, ht, hup⟩ => ?_⟩
    have hne : x ≠ d := fun heq => hd (heq ▸ hx)
    exact ⟨t, (Function.update_of_ne hne _ _).symm.trans ht, hup⟩
  obtain ⟨hheard, hreadings⟩ := hI.idle d hd
  have hreadings' : readings d (ls ++ [.start d first second]) = [first, second] := by
    rw [readings_concat, hreadings]
    simp [Step.readings]
  subst hw'
  refine ⟨hI.of_device hlater rfl (fun e => List.mem_cons) (fun e he => ?_) ⟨[], ?_⟩
    (fun e he => Or.inl he) ?_ fun src dst payload hp => ?_, hlater⟩
  · exact ⟨rfl, by simp [Step.readings, he.symm]⟩
  · rw [hreadings']
    exact ⟨⟨first, second, s, hinit, rfl, rfl⟩, by rw [hheard]; rfl, hrunning,
      fun _ _ => List.not_mem_nil⟩
  · rw [hheard]
    exact List.nil_sublist _
  · rcases List.mem_append.1 hp with hp | hp
    · exact Or.inl hp
    · obtain ⟨rfl, -, hp⟩ := Discovery.mem_announcements.1 hp
      exact Or.inr ⟨List.mem_cons_self, Or.inl (hspeaks payload hp)⟩

/-- A step that only takes services or datagrams away keeps the invariant. -/
private theorem Invariant.of_fewer (hI : Invariant setup ls w) {l : Step D}
    (hservice : ∀ e t, w'.service e = some t → w.service e = some t)
    (hstarted : w'.started = w.started) (hheard : w'.heard = w.heard)
    (hflight : ∀ p ∈ w'.inFlight, p ∈ w.inFlight) (hreadings : ∀ e, l.readings e = []) :
    Invariant setup (ls ++ [l]) w' ∧ Later w w' := by
  have hlater : Later w w' :=
    ⟨fun x hx => hstarted ▸ hx, fun x _ ⟨t, ht, hup⟩ => ⟨t, hservice x t ht, hup⟩⟩
  have hreadings' : ∀ e, readings e (ls ++ [l]) = readings e ls := fun e => by
    rw [readings_concat, hreadings, List.append_nil]
  refine ⟨⟨fun e t ht => ?_, fun e he => ?_, fun src dst payload hp => ?_, fun e f hf => ?_,
    fun e => ?_⟩, hlater⟩
  · rw [hstarted, hheard, hreadings']
    exact hI.services e t (hservice e t ht)
  · rw [hheard, hreadings']
    exact hI.idle e (hstarted ▸ he)
  · exact (hI.inFlight src dst payload (hflight _ hp)).later hlater
  · exact (hI.heard e f (hheard ▸ hf)).later hlater
  · rw [hheard, hreadings']
    exact hI.times e

/-- A step of the network keeps the invariant, and no device comes back. -/
theorem Invariant.step (hI : Invariant setup ls w) {l : Step D}
    (h : Presence.step setup w l = some w') : Invariant setup (ls ++ [l]) w' ∧ Later w w' := by
  rcases step_cases h with ⟨d, first, second, s, rfl, hd, hinit, hw'⟩ | ⟨d, own, w₀, hown, hact⟩ |
    ⟨d, s, rfl, -, rfl⟩ | ⟨F, hF, rfl, hreadings⟩
  · exact hI.start hd hinit hw'
  · exact hI.act hown hact
  · refine hI.of_fewer (fun e t ht => ?_) rfl rfl (fun p hp => hp) fun e => rfl
    by_cases he : e = d
    · subst he
      simp at ht
    · exact (Function.update_of_ne he _ _).symm.trans ht
  · exact hI.of_fewer (fun e t ht => ht) rfl rfl hF hreadings

theorem Invariant.run (h : (machine setup).run Presence.empty ls = some w) : Invariant setup ls w :=
  Machine.run_induction (motive := Invariant setup) (.empty setup)
    (fun _ _ _ _ _ hI hstep => (hI.step hstep).1) h

/-! ## The network without departures -/

/-- Every service runs, and every device that was started has one. -/
private structure Staying (v : Discovery D) : Prop where
  up : ∀ d s, v.service d = some s → s.broadcastServer = true
  service : ∀ d ∈ v.started, v.service d ≠ none

private theorem Staying.update {v v' : Discovery D} (hv : Staying v)
    (hservice : v'.service = Function.update v.service d (some s))
    (hstarted : ∀ e ∈ v'.started, e = d ∨ e ∈ v.started) (hup : s.broadcastServer = true) :
    Staying v' := by
  refine ⟨fun e t ht => ?_, fun e he => ?_⟩
  · rw [hservice] at ht
    by_cases heq : e = d
    · subst heq
      rw [Function.update_self] at ht
      exact Option.some.inj ht ▸ hup
    · exact hv.up e t ((Function.update_of_ne heq _ _).symm.trans ht)
  · rw [hservice]
    by_cases heq : e = d
    · subst heq
      simp
    · rw [Function.update_of_ne heq]
      exact hv.service e ((hstarted e he).resolve_left heq)

omit [DecidableEq D] in
private theorem Staying.empty : Staying (Discovery.empty : Discovery D) := by
  refine ⟨fun d s h => ?_, fun d h => ?_⟩
  · cases h
  · cases h

/-- A step of the network in which nobody leaves is one of this network. -/
private theorem staying_step {v v' : Discovery D} {l : Step D} (hv : Staying v)
    (h : Discovery.step setup v l = some v') (heard : D → List ((D × StdString) × UInt64)) :
    Staying v' ∧ ∃ heard', Presence.step setup ⟨v.started, v.service, v.inFlight, heard⟩ l =
      some ⟨v'.started, v'.service, v'.inFlight, heard'⟩ := by
  cases l with
  | start d first second =>
    obtain ⟨hnone, s, hinit, rfl⟩ := Discovery.start_eq_some h
    have hd : d ∉ v.started := fun hd => hv.service d hd hnone
    refine ⟨hv.update rfl (fun e he => List.mem_cons.1 he) (Running.init hinit).2.1, heard, ?_⟩
    simp [Presence.step, hd, hinit, Except.toOption]
  | deliver d k clock =>
    obtain ⟨src, payload, s, s', hk, hs, hmessage, rfl⟩ := Discovery.deliver_eq_some h
    have hstep : DiscoveryService.step setup.lib s
        (.message ⟨⟨setup.ip src⟩, Peer.self, payload⟩ clock) = some s' := by
      rw [DiscoveryService.step, if_pos (hv.up d s hs), hmessage]
      rfl
    have hup : s'.broadcastServer = true :=
      (DiscoveryService.says_of_step (by simp) hstep).broadcastServer.trans (hv.up d s hs)
    refine ⟨hv.update rfl (fun e he => Or.inr he) hup,
      Function.update heard d (heard d ++ [((src, payload), clock.seen)]), ?_⟩
    simp only [Presence.step, hk, if_true, act, take, hs, hstep]
    rfl
  | tick d broadcast stale =>
    obtain ⟨s, s', hs, hupdate, rfl⟩ := Discovery.tick_eq_some h
    have hstep : DiscoveryService.step setup.lib s (.update broadcast stale) = some s' := by
      rw [DiscoveryService.step, hupdate]
      rfl
    have hup : s'.broadcastServer = true :=
      (DiscoveryService.says_of_step (by simp) hstep).broadcastServer.trans (hv.up d s hs)
    refine ⟨hv.update rfl (fun e he => Or.inr he) hup, heard, ?_⟩
    simp only [Presence.step, act, hs, hstep]
    rfl
  | leave d now => cases h
  | vanish d => cases h
  | duplicate k =>
    obtain ⟨F, hF, rfl⟩ := Option.map_eq_some_iff.1 h
    exact ⟨⟨hv.up, hv.service⟩, heard, Option.map_eq_some_iff.2 ⟨F, hF, rfl⟩⟩
  | lose k =>
    obtain ⟨F, hF, rfl⟩ := Option.map_eq_some_iff.1 h
    exact ⟨⟨hv.up, hv.service⟩, heard, Option.map_eq_some_iff.2 ⟨F, hF, rfl⟩⟩

/-- A run in which nobody leaves is a run of this network, with the same services and datagrams. -/
theorem run_of_staying {v : Discovery D} {ls : List (Step D)}
    (h : (Discovery.machine setup).run Discovery.empty ls = some v) :
    ∃ heard, (machine setup).run Presence.empty ls =
      some ⟨v.started, v.service, v.inFlight, heard⟩ := by
  suffices Staying v ∧ ∃ heard, (machine setup).run Presence.empty ls =
      some ⟨v.started, v.service, v.inFlight, heard⟩ from this.2
  refine Machine.run_induction (motive := fun ls v => Staying v ∧
    ∃ heard, (machine setup).run Presence.empty ls =
      some ⟨v.started, v.service, v.inFlight, heard⟩) ⟨.empty, _, rfl⟩ ?_ h
  intro ls v l v' _ ⟨hv, heard, hrun⟩ hstep
  obtain ⟨hv', heard', hstep'⟩ := staying_step hv hstep heard
  exact ⟨hv', heard', Machine.run_concat_eq_some.2 ⟨_, hrun, hstep'⟩⟩

end Presence

end Keyleport
