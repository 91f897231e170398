import Keyleport.Session.Program

/-!
# Hosts that were not heard

What a host can do to a program before the discovery service has accepted a datagram of it: nothing.
Whoever has an effect on the session has sent a datagram before, and what the packets of the others
hold makes no difference.

* `Program.Quiet.step`: hosts stay without effect as long as no datagram of them is accepted.
* `Program.Same.step`: two programs that differ at most in what packets of these hosts hold stay so.
* `network_trust`: whoever has an effect sent a datagram, and each event came in a packet.
* `unheard_packets_inert`: what the packets of unheard hosts hold makes no difference.
-/

namespace Keyleport

open UdpBroadcastServer (Platform)

namespace Program

open UdpServer (extractIp)

/-! ## Hosts without effect -/

/-- A datagram is no accepted one of a host of a set. -/
def Spared (lib : Nlohmann) (platform : Platform) (deviceId : StdString) (H : StdString → Prop)
    (r : Recv) : Prop :=
  ∀ msg peer, UdpBroadcastServer.message? platform r = some msg →
    DiscoveryService.acceptedPeer lib deviceId msg = some peer → ¬ H msg.sender.ipAddress

/-- A step that is no accepted datagram of a host of a set. -/
def Step.Spares (lib : Nlohmann) (platform : Platform) (deviceId : StdString)
    (H : StdString → Prop) (l : Step) : Prop :=
  ∀ r, l = .datagram r → Spared lib platform deviceId H r

/-- The hosts of a set are without effect, and no datagram that waits is an accepted one of them. -/
structure Quiet (lib : Nlohmann) (platform : Platform) (deviceId : StdString)
    (H : StdString → Prop) (s : Program) : Prop where
  avoids : Device.Avoids H s.device
  selfId : s.discovery.service.selfPeer.deviceId = deviceId
  polls : s.Polls
  queue : ∀ r ∈ s.discovery.queue.getD [], Spared lib platform deviceId H r

variable {lib : Nlohmann} {platform : Platform} {hasEmitter : Bool} {deviceId : StdString}
variable {H : StdString → Prop} {s s' t : Program}

/-- The message of a datagram that was handled. -/
theorem exists_datagram {steps : List Device.Step} {received : List Recv} {msg : Message}
    {clock : MessageClock} (h : steps.filterMap discovered? =
      received.filterMap (UdpBroadcastServer.message? platform))
    (hmem : .discovery (.message msg clock) ∈ steps) :
    ∃ r ∈ received, UdpBroadcastServer.message? platform r = some msg := by
  rw [← List.mem_filterMap, ← h]
  exact List.mem_filterMap.2 ⟨_, hmem, rfl⟩

theorem Step.eq_of_datagram {l : Step} {r : Recv} (h : l.datagram? = some r) : l = .datagram r := by
  cases l with
  | datagram r' => exact congrArg _ (Option.some.inj h)
  | session l | updateTurn clock | updateRest broadcast stale | cleanup now | update => cases h

/-- A datagram that waits after a step has waited before, or has just arrived. -/
theorem Refines.mem_queue {l : Step} {steps : List Device.Step} {received : List Recv}
    {taken : List (Option ServerEvent)} {r : Recv}
    (h : Refines lib platform hasEmitter s l s' steps received taken)
    (hr : r ∈ s'.discovery.queue.getD []) :
    r ∈ s.discovery.queue.getD [] ∨ l = .datagram r := by
  cases hq : s'.discovery.queue with
  | none =>
    rw [hq] at hr
    cases hr
  | some queue' =>
    obtain ⟨queue, hqueue, hsplit⟩ := h.pending queue' hq
    rw [hq] at hr
    have hmem : r ∈ queue ++ [l].filterMap Step.datagram? :=
      hsplit ▸ List.mem_append_right _ hr
    rw [hqueue]
    rcases List.mem_append.1 hmem with hr | hr
    · exact Or.inl hr
    · obtain ⟨l', hl', hdatagram⟩ := List.mem_filterMap.1 hr
      obtain rfl := List.mem_singleton.1 hl'
      exact Or.inr (Step.eq_of_datagram hdatagram)

/-- Hosts stay without effect as long as no datagram of them is accepted. -/
theorem Quiet.step {l : Step} (hs : Quiet lib platform deviceId H s)
    (hl : l.Spares lib platform deviceId H)
    (h : Program.step lib platform hasEmitter s l = some s') :
    Quiet lib platform deviceId H s' := by
  obtain ⟨steps, received, taken, hR⟩ := step_refines hs.polls h
  have hspares : ∀ l' ∈ steps, l'.Spares lib s.device.discovery.selfPeer.deviceId H := by
    rintro l' hl' msg clock peer rfl hpeer
    obtain ⟨r, hr, hmsg⟩ := exists_datagram hR.discovered hl'
    exact hs.queue r (hR.inOrder.subset hr) msg peer hmsg (hs.selfId ▸ hpeer)
  obtain ⟨havoids, hself⟩ := hs.avoids.run hspares hR.runs
  refine ⟨havoids, hself.trans hs.selfId, hR.polls, fun r hr => ?_⟩
  rcases hR.mem_queue hr with hr | rfl
  · exact hs.queue r hr
  · exact hl r rfl

/-- When a program starts, all hosts are without effect. -/
theorem Quiet.init {deviceName platformName : StdString} {first second : UInt64} {bound : Bool}
    {discovery : DiscoveryHost} (server : UdpServer) (hinit : DiscoveryHost.init lib deviceId
      deviceName platformName first second bound = .ok discovery) :
    Quiet lib platform deviceId H (Program.init discovery server) := by
  obtain ⟨service, hservice, hinit⟩ := Except.bind_eq_ok_iff.1 hinit
  obtain rfl := Except.ok.inj hinit
  refine ⟨Device.Avoids.init hservice, ?_, fun n hn => ?_, fun r hr => ?_⟩
  · exact congrArg DiscoveryPeer.deviceId (DiscoveryService.init_spec hservice).2.1
  · cases hn
  · cases bound <;> cases hr

/-! ## Programs that differ in packets -/

/-- Two answers that differ at most in what a packet of a host of a set holds. -/
inductive Alike (H : StdString → Prop) : Option ServerEvent → Option ServerEvent → Prop where
  | refl (answer : Option ServerEvent) : Alike H answer answer
  | receive (peer : Option (Option StdString)) (data data' : Option StdString)
      (hpeer : H (extractIp peer)) :
      Alike H (some (.receive peer data)) (some (.receive peer data'))

/-- Two steps that differ at most in what a packet of a host of a set holds. -/
inductive Step.Alike (H : StdString → Prop) : Step → Step → Prop where
  | refl (l : Step) : Step.Alike H l l
  | arrive {answer answer' : Option ServerEvent} (h : Program.Alike H answer answer') :
      Step.Alike H (.session (.arrive answer)) (.session (.arrive answer'))

theorem Step.Alike.symm {l l' : Step} (h : Step.Alike H l l') : Step.Alike H l' l := by
  cases h with
  | refl l => exact .refl l
  | arrive h =>
    cases h with
    | refl answer => exact .refl _
    | receive peer data data' hpeer => exact .arrive (.receive peer data' data hpeer)

/-- Datagrams are not among what differs. -/
theorem Step.Alike.datagram {l : Step} {r : Recv} (h : Step.Alike H l (.datagram r)) :
    l = .datagram r := by
  cases h
  rfl

/-- Sessions behind their servers that differ at most in what packets of a host of a set hold. -/
structure SameSession (H : StdString → Prop) (u v : SessionHost) : Prop where
  session : v.session = u.session
  host : v.server.host = u.server.host
  queue : List.Forall₂ (Alike H) u.queue v.queue
  polling : v.polling = u.polling

/-- Programs that differ at most in what packets of a host of a set hold. -/
structure Same (H : StdString → Prop) (s t : Program) : Prop where
  discovery : t.discovery = s.discovery
  updating : t.updating = s.updating
  session : SameSession H s.session t.session

theorem SameSession.refl (H : StdString → Prop) (u : SessionHost) : SameSession H u u :=
  ⟨rfl, rfl, List.forall₂_same.2 fun _ _ => .refl _, rfl⟩

theorem Same.refl (H : StdString → Prop) (s : Program) : Same H s s :=
  ⟨rfl, rfl, SameSession.refl H s.session⟩

theorem SameSession.listing {u v : SessionHost} (h : SameSession H u v)
    (ds : List ConnectionCandidate) : SameSession H (listing u ds) (listing v ds) :=
  ⟨congrArg (fun x => { x with availableDevices := ds }) h.session, h.host, h.queue, h.polling⟩

/-- The turn of a packet does the same if its message does. -/
theorem SameSession.receive {session : Session} {server server' : UdpServer} {n : ℕ}
    {queue queue' : List (Option ServerEvent)} {peer : Option (Option StdString)}
    {data data' : Option StdString} {u : SessionHost}
    (hhost : server'.host = server.host) (hqueue : List.Forall₂ (Alike H) queue queue')
    (hmsg : session.onMessage lib (UdpServer.message peer data') =
      session.onMessage lib (UdpServer.message peer data))
    (hu : (⟨session, server, queue, some (n + 1)⟩ : SessionHost).takeEvent lib n queue
      (.receive peer data) = some u) :
    ∃ v, (⟨session, server', queue', some (n + 1)⟩ : SessionHost).takeEvent lib n queue'
      (.receive peer data') = some v ∧ SameSession H u v := by
  simp only [SessionHost.takeEvent] at hu ⊢
  by_cases hip : extractIp peer = []
  · rw [if_pos hip] at hu ⊢
    obtain rfl := Option.some.inj hu
    exact ⟨_, rfl, rfl, by simpa using hhost, hqueue, rfl⟩
  · rw [if_neg hip] at hu ⊢
    obtain ⟨t, ht, hu⟩ := Option.bind_eq_some_iff.1 hu
    obtain rfl := Option.some.inj hu
    refine ⟨_, Option.bind_eq_some_iff.2 ⟨t, hmsg ▸ ht, rfl⟩, rfl, by simpa using hhost, hqueue,
      rfl⟩

/-- A turn does the same, as the message of a host without effect changes nothing. -/
theorem SameSession.turn {u u' v : SessionHost} (h : SameSession H u v)
    (hinert : ∀ msg : Message, H msg.sender.ipAddress →
      u.session.onMessage lib msg = .ok u.session)
    (hu : u.takeTurn lib = some u') : ∃ v', v.takeTurn lib = some v' ∧ SameSession H u' v' := by
  obtain ⟨session, server, queue, polling⟩ := u
  obtain ⟨session', server', queue', polling'⟩ := v
  obtain ⟨hsession, hhost, hqueue, hpolling⟩ := h
  obtain rfl : session' = session := hsession
  obtain rfl : polling' = polling := hpolling
  change server'.host = server.host at hhost
  change List.Forall₂ (Alike H) queue queue' at hqueue
  cases polling' with
  | none => cases hu
  | some n =>
    cases n with
    | zero =>
      obtain rfl := Option.some.inj hu
      exact ⟨_, rfl, rfl, hhost, hqueue, rfl⟩
    | succ n =>
      cases hqueue with
      | nil =>
        obtain rfl := Option.some.inj hu
        exact ⟨_, rfl, rfl, hhost, .nil, rfl⟩
      | @cons answer _ queue queue' hanswer hqueue =>
        cases hanswer with
        | receive peer data data' hpeer =>
          refine SameSession.receive hhost hqueue ?_ hu
          rw [hinert _ hpeer, hinert _ hpeer]
        | refl =>
          cases answer with
          | none =>
            obtain rfl := Option.some.inj hu
            exact ⟨_, rfl, rfl, hhost, hqueue, rfl⟩
          | some event =>
            cases event with
            | receive peer data => exact SameSession.receive hhost hqueue rfl hu
            | connect | disconnect =>
              obtain rfl := Option.some.inj hu
              exact ⟨_, rfl, rfl, by simpa using hhost, hqueue, rfl⟩

/-- So does any step of a session and its server. -/
theorem SameSession.step {host : Host} {l : SessionHost.Step} {u u' v : SessionHost}
    (h : SameSession H u v)
    (hinert : ∀ msg : Message, H msg.sender.ipAddress →
      u.session.onMessage lib msg = .ok u.session)
    (hu : SessionHost.step lib host u l = some u') :
    ∃ v', SessionHost.step lib host v l = some v' ∧ SameSession H u' v' := by
  cases l with
  | turn => exact h.turn hinert hu
  | arrive answer =>
    obtain rfl := Option.some.inj hu
    exact ⟨_, rfl, h.session, h.host, List.rel_append h.queue (.cons (.refl _) .nil), h.polling⟩
  | pollEvents =>
    simp only [SessionHost.step, h.host, h.polling] at hu ⊢
    split at hu
    next hhost =>
      obtain ⟨hidle, hu⟩ := Option.ite_none_right_eq_some.1 hu
      obtain rfl := Option.some.inj hu
      rw [if_pos hhost, if_pos hidle]
      exact ⟨_, rfl, h.session, h.host, h.queue, rfl⟩
    next hhost =>
      obtain rfl := Option.some.inj hu
      rw [if_neg hhost]
      exact ⟨_, rfl, h⟩
  | session l =>
    obtain ⟨-, t, ht, rfl⟩ := SessionHost.step_session hu
    refine ⟨{ v with session := t }, ?_, rfl, h.host, h.queue, h.polling⟩
    rw [← h.session] at ht
    cases l with
    | message msg => cases hu
    | setAvailableDevices ds =>
      obtain rfl := Option.some.inj ht
      rfl
    | connectClick _ | runUiTask => exact Option.map_eq_some_iff.2 ⟨t, ht, rfl⟩

/-- An iteration of the loop in `poll_events` does the same. -/
theorem Same.updateTurn {clock : MessageClock} (h : Same H s t)
    (hs : s.updateTurn lib platform clock = some s') :
    ∃ t', t.updateTurn lib platform clock = some t' ∧ Same H s' t' := by
  obtain ⟨⟨service, queue⟩, updating, session⟩ := s
  obtain ⟨discovery', updating', session'⟩ := t
  obtain ⟨hdiscovery, hupdating, hsession⟩ := h
  obtain rfl : discovery' = ⟨service, queue⟩ := hdiscovery
  obtain rfl : updating' = updating := hupdating
  simp only [Program.updateTurn] at hs ⊢
  split at hs
  next n r queue' =>
    cases hread : UdpBroadcastServer.read platform r with
    | stop | skip =>
      rw [hread] at hs
      obtain rfl := Option.some.inj hs
      exact ⟨_, rfl, rfl, rfl, hsession⟩
    | emit msg =>
      rw [hread] at hs
      obtain ⟨service', hmsg, hs⟩ := Option.bind_eq_some_iff.1 hs
      obtain rfl := Option.some.inj hs
      refine ⟨_, Option.bind_eq_some_iff.2 ⟨service', hmsg, rfl⟩, rfl, rfl, hsession.listing _⟩
  next => cases hs

/-- The rest of `update` does the same. -/
theorem Same.updateRest {broadcast stale : UInt64} (h : Same H s t)
    (hs : s.updateRest lib broadcast stale = some s') :
    ∃ t', t.updateRest lib broadcast stale = some t' ∧ Same H s' t' := by
  obtain ⟨⟨service, queue⟩, updating, session⟩ := s
  obtain ⟨discovery', updating', session'⟩ := t
  obtain ⟨hdiscovery, hupdating, hsession⟩ := h
  obtain rfl : discovery' = ⟨service, queue⟩ := hdiscovery
  obtain rfl : updating' = updating := hupdating
  simp only [Program.updateRest] at hs ⊢
  split at hs
  next => cases hs
  next => cases hs
  next =>
    obtain ⟨service', hupdate, hs⟩ := Option.bind_eq_some_iff.1 hs
    obtain rfl := Option.some.inj hs
    refine ⟨_, Option.bind_eq_some_iff.2 ⟨service', hupdate, rfl⟩, rfl, rfl, hsession.listing _⟩

/-- So does any step of a program, along packets that differ in this way. -/
theorem Same.step {l l' : Step} (h : Same H s t) (hs : Device.Avoids H s.device)
    (hl : Step.Alike H l l') (hstep : Program.step lib platform hasEmitter s l = some s') :
    ∃ t', Program.step lib platform hasEmitter t l' = some t' ∧ Same H s' t' := by
  have hguard : (t.updating = none ∧ t.session.polling = none) ↔
      (s.updating = none ∧ s.session.polling = none) := by
    rw [h.updating, h.session.polling]
  cases hl with
  | arrive hanswer =>
    obtain rfl := Option.some.inj hstep
    exact ⟨_, rfl, h.discovery, h.updating, h.session.session, h.session.host,
      List.rel_append h.session.queue (.cons hanswer .nil), h.session.polling⟩
  | refl =>
    cases l with
    | datagram r =>
      obtain rfl := Option.some.inj hstep
      exact ⟨_, rfl, by rw [h.discovery], h.updating, h.session⟩
    | update =>
      obtain ⟨hidle, hstep⟩ := Option.ite_none_right_eq_some.1 hstep
      obtain rfl := Option.some.inj hstep
      exact ⟨_, if_pos (hguard.2 hidle), h.discovery, by rw [h.discovery], h.session⟩
    | updateTurn clock => exact h.updateTurn hstep
    | updateRest broadcast stale => exact h.updateRest hstep
    | cleanup now =>
      obtain ⟨hidle, hstep⟩ := Option.ite_none_right_eq_some.1 hstep
      obtain ⟨d, hcleanup, hstep⟩ := Option.bind_eq_some_iff.1 hstep
      obtain rfl := Option.some.inj hstep
      refine ⟨_, (if_pos (hguard.2 hidle)).trans (Option.bind_eq_some_iff.2 ⟨d, ?_, rfl⟩), rfl,
        h.updating, h.session.listing _⟩
      rw [h.discovery]
      exact hcleanup
    | session l =>
      obtain ⟨hallows, hstep⟩ := Option.ite_none_right_eq_some.1 hstep
      obtain ⟨u, hu, rfl⟩ := Option.map_eq_some_iff.1 hstep
      -- the message of a host without effect changes nothing
      obtain ⟨v, hv, hsame⟩ := h.session.step (fun msg => Device.onMessage_of_avoids hs) hu
      have hself : t.device.host hasEmitter = s.device.host hasEmitter := by
        simp only [Device.host, device, h.discovery]
      have hallows' : t.allows l = s.allows l := by
        cases l <;> simp only [allows, h.updating]
      refine ⟨{ t with session := v }, (if_pos (hallows' ▸ hallows)).trans ?_, h.discovery,
        h.updating, hsame⟩
      rw [hself, hv]
      rfl

/-- A program but for its server and the packets that wait there. -/
def observed (s : Program) : DiscoveryHost × Option ℕ × Session × Option ℕ :=
  (s.discovery, s.updating, s.session.session, s.session.polling)

theorem Same.observed_eq (h : Same H s t) : t.observed = s.observed := by
  rw [observed, observed, h.discovery, h.updating, h.session.session, h.session.polling]

theorem Step.Alike.spares {l l' : Step} (h : Step.Alike H l l')
    (hl : l.Spares lib platform deviceId H) : l'.Spares lib platform deviceId H := by
  rintro r rfl
  exact hl r h.datagram

/-- Programs stay the same along steps that differ in packets of hosts that are not heard. -/
theorem Same.run {ls ls' : List Step} (h : Same H s t) (hs : Quiet lib platform deviceId H s)
    (hls : List.Forall₂
      (fun l l' => l.Spares lib platform deviceId H ∧ Step.Alike H l l') ls ls')
    (hrun : (machine lib platform hasEmitter).run s ls = some s') :
    ∃ t', (machine lib platform hasEmitter).run t ls' = some t' ∧ Same H s' t' := by
  have hstep : ∀ s t l l' s', Quiet lib platform deviceId H s ∧ Same H s t →
      l.Spares lib platform deviceId H ∧ Step.Alike H l l' →
      (machine lib platform hasEmitter).step s l = some s' →
      ∃ t', (machine lib platform hasEmitter).step t l' = some t' ∧
        Quiet lib platform deviceId H s' ∧ Same H s' t' := by
    rintro s t l l' s' ⟨hs, h⟩ ⟨hspares, halike⟩ hstep
    obtain ⟨t', ht', hsame⟩ := h.step hs.avoids halike hstep
    exact ⟨t', ht', hs.step hspares hstep, hsame⟩
  obtain ⟨t', ht', -, hsame⟩ := Machine.run_forall₂ hstep ⟨hs, h⟩ hls hrun
  exact ⟨t', ht', hsame⟩

end Program

open Program in
/-- The packets of hosts that are not heard are inert. For every set of hosts from which no
datagram that the discovery service accepts arrives in a run, it makes no difference what the
packets of these hosts hold: if only this is changed, whatever it is and in as many packets as one
likes, both services and their polls end in the same state, and if one of the runs has no outcome,
as when a callback throws, then neither has the other. -/
theorem unheard_packets_inert {lib : Nlohmann} {platform : Platform} {hasEmitter bound : Bool}
    {deviceId deviceName platformName : StdString} {first second : UInt64}
    {discovery : DiscoveryHost} {ls ls' : List Step} (H : StdString → Prop) (server : UdpServer)
    (hinit : DiscoveryHost.init lib deviceId deviceName platformName first second bound =
      .ok discovery)
    (hls : ∀ r msg peer, .datagram r ∈ ls → UdpBroadcastServer.message? platform r = some msg →
      DiscoveryService.acceptedPeer lib deviceId msg = some peer → ¬ H msg.sender.ipAddress)
    (halike : List.Forall₂ (Step.Alike H) ls ls') :
    ((machine lib platform hasEmitter).run (init discovery server) ls').map observed =
      ((machine lib platform hasEmitter).run (init discovery server) ls).map observed := by
  have hquiet : Quiet lib platform deviceId H (init discovery server) := .init server hinit
  have hspares : List.Forall₂
      (fun l l' => l.Spares lib platform deviceId H ∧ Step.Alike H l l') ls ls' := by
    refine (List.forall₂_and_left _ _).2 ⟨fun l hl r heq msg peer hmsg hpeer => ?_, halike⟩
    exact hls r msg peer (heq ▸ hl) hmsg hpeer
  cases hrun : (machine lib platform hasEmitter).run (init discovery server) ls with
  | some s =>
    obtain ⟨t, ht, hsame⟩ := (Same.refl H _).run hquiet hspares hrun
    rw [ht, Option.map_some, Option.map_some, hsame.observed_eq]
  | none =>
    cases hrun' : (machine lib platform hasEmitter).run (init discovery server) ls' with
    | none => rfl
    | some t =>
      -- what one run does the other does too
      have hback : List.Forall₂
          (fun l l' => l.Spares lib platform deviceId H ∧ Step.Alike H l l') ls' ls :=
        hspares.flip.imp fun _ _ h => ⟨h.2.spares h.1, h.2.symm⟩
      obtain ⟨s, hs, -⟩ := (Same.refl H _).run hquiet hback hrun'
      rw [hrun] at hs
      cases hs

/-- The run in which `10.0.0.2` is accepted, and then a packet of `10.0.0.3`, which was not heard,
is taken. -/
def Program.intruded (data : StdString) : List Program.Step :=
  hearAndAccept ++
    [.session (.arrive (some (.receive (some (some (.ofString "10.0.0.3"))) (some data)))),
      .session .turn]

open Program in
/-- One event is injected in this run, and whatever `10.0.0.3` sends makes no difference. -/
theorem unheard_packets_inert_intruded : ∃ d s,
    s.session.session.injected.length = 1 ∧ ∀ data : StdString,
      ((machine JsonText.nlohmann .macos true).run (init d (.init 8801 true true))
        (intruded data)).map observed = some (observed s) := by
  have hrun : ∃ d ∈ (DiscoveryHost.init JsonText.nlohmann (.ofString "a") [] [] 0 0 true).toOption,
      ∃ s ∈ (machine JsonText.nlohmann .macos true).run (init d (.init 8801 true true))
        (intruded []), s.session.session.injected.length = 1 := by
    decide +kernel
  obtain ⟨d, hd, s, hs, hinjected⟩ := hrun
  refine ⟨d, s, hinjected, fun data => ?_⟩
  have hinert := @unheard_packets_inert JsonText.nlohmann .macos true _ _ _ _ _ _ _ (intruded [])
    (intruded data) (fun ip => ip = .ofString "10.0.0.3") (.init 8801 true true)
    (Except.eq_ok_of_toOption hd) ?_ ?_
  · rw [hinert, hs]
    rfl
  · intro r msg peer hmem hmsg _
    -- the one datagram of the run is from `10.0.0.2`
    simp only [intruded, hearAndAccept, List.cons_append, List.nil_append, List.mem_cons,
      Step.datagram.injEq, reduceCtorEq, List.not_mem_nil, or_false] at hmem
    subst hmem
    obtain rfl := Option.some.inj hmsg
    decide
  · exact List.rel_append (List.forall₂_same.2 fun _ _ => .refl _)
      (.cons (.arrive (.receive _ _ _ rfl)) (.cons (.refl _) .nil))

end Keyleport
