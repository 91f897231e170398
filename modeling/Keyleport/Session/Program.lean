import Keyleport.Discovery.Socket
import Keyleport.Session.Server
import Keyleport.Session.Trust

/-!
# The program behind its sockets

The discovery service with the socket of its broadcast server and the session with its server, as
the network sees them: datagrams and packets arrive at any time, the services thread polls for them
in the `update` of one service after the other, and the main thread clicks and runs UI tasks in
between. The loops of both polls are taken one turn at a time.

* `Program.run_update`: turns with nothing in between are an update of the discovery service.
* `Program.step_refines`: each step is a block of steps of the two services by themselves.
* `program_refines`: the program runs as its two services do by themselves, on the messages of the
  datagrams and packets taken.
-/

namespace Keyleport

open UdpBroadcastServer (Platform maxPerPoll)

/-- A program with its sockets. -/
structure Program where
  discovery : DiscoveryHost
  /-- In `update` of the discovery service: the iterations that are left in `poll_events`. -/
  updating : Option ℕ
  session : SessionHost

namespace Program

/-- What happens to a program. -/
inductive Step where
  /-- The network puts a datagram into the queue of the discovery service's socket. -/
  | datagram (r : Recv)
  /-- `update` of the discovery service begins. -/
  | update
  /-- An iteration of the loop in its `poll_events`. -/
  | updateTurn (clock : MessageClock)
  /-- The loop has ended, and the rest of `update` follows. -/
  | updateRest (broadcast stale : UInt64)
  /-- `cleanup` of the discovery service. -/
  | cleanup (now : UInt64)
  | session (l : SessionHost.Step)

/-- The two services by themselves. -/
def device (s : Program) : Device := ⟨s.discovery.service, s.session.session⟩

/-- The session with another list of devices. -/
def listing (session : SessionHost) (ds : List ConnectionCandidate) : SessionHost :=
  { session with session := { session.session with availableDevices := ds } }

/-- The discovery service after a callback, with the list that it stores. -/
def store (s : Program) (service : DiscoveryService) : Program :=
  { s with
    discovery := { s.discovery with service := service }
    session := listing s.session service.availableDevices }

/-- The beginning of `update`: `if (broadcast_server_) { broadcast_server_->poll_events(); }`. -/
def beginUpdate (s : Program) : Option Program :=
  if s.updating = none ∧ s.session.polling = none then
    some { s with updating := some (if s.discovery.service.broadcastServer then maxPerPoll else 0) }
  else none

/-- An iteration of the loop in `poll_events` that finds a datagram or an error. -/
def updateTurn (lib : Nlohmann) (platform : Platform) (s : Program) (clock : MessageClock) :
    Option Program :=
  match s.updating, s.discovery.queue with
  | some (n + 1), some (r :: queue) =>
      let s := { s with discovery := { s.discovery with queue := some queue } }
      match UdpBroadcastServer.read platform r with
      | .stop => some { s with updating := some 0 }
      | .skip => some { s with updating := some n }
      | .emit msg => do
          let service ← (s.discovery.service.onMessage lib msg clock).toOption
          return { s.store service with updating := some n }
  | _, _ => none

/-- The rest of `update`, when the loop has made its iterations or finds nothing. -/
def updateRest (lib : Nlohmann) (s : Program) (broadcast stale : UInt64) : Option Program :=
  match s.updating, s.discovery.queue with
  | none, _ => none
  | some (_ + 1), some (_ :: _) => none
  | some _, _ => do
      let service ← (s.discovery.service.update lib broadcast stale).toOption
      return { s.store service with updating := none }

/-- Whether a program makes a step of its session and server: the list of devices is written by the
discovery service only, and its update and the poll of the server are of one thread. -/
def allows (s : Program) : SessionHost.Step → Bool
  | .session (.setAvailableDevices _) => false
  | .pollEvents => s.updating = none
  | .arrive _ | .turn | .session (.message _) | .session (.connectClick _)
  | .session .runUiTask => true

/-- One step. A cleanup comes when the thread of the services has ended. -/
def step (lib : Nlohmann) (platform : Platform) (hasEmitter : Bool) (s : Program) :
    Step → Option Program
  | .datagram r =>
      some { s with discovery :=
        { s.discovery with queue := s.discovery.queue.map fun queue => queue ++ [r] } }
  | .update => s.beginUpdate
  | .updateTurn clock => s.updateTurn lib platform clock
  | .updateRest broadcast stale => s.updateRest lib broadcast stale
  | .cleanup now =>
      if s.updating = none ∧ s.session.polling = none then do
        let discovery ← (s.discovery.cleanup lib now).toOption
        return { s.store discovery.service with discovery := discovery }
      else none
  | .session l =>
      if s.allows l then
        (SessionHost.step lib (s.device.host hasEmitter) s.session l).map fun session =>
          { s with session := session }
      else none

/-- The program as a machine. -/
def machine (lib : Nlohmann) (platform : Platform) (hasEmitter : Bool) : Machine Program Step :=
  ⟨step lib platform hasEmitter⟩

/-- A program whose home scene is mounted, with what the two `init` give. -/
def init (discovery : DiscoveryHost) (server : UdpServer) : Program :=
  ⟨discovery, none, Session.init, server, [], none⟩

variable {lib : Nlohmann} {platform : Platform} {hasEmitter : Bool} {s s' : Program}

/-! ## Turns and updates -/

theorem listing_eq_self {session : SessionHost} {ds : List ConnectionCandidate}
    (h : session.session.availableDevices = ds) : listing session ds = session := by
  subst h
  rfl

/-- The loop of `poll_events` is what its turns do, if nothing comes in between. -/
theorem run_pollLoop {clock : ℕ → MessageClock} {service service' : DiscoveryService}
    {queue queue' : List Recv} {n m m' : ℕ} {session : SessionHost}
    (hlist : session.session.availableDevices = service.availableDevices)
    (h : UdpBroadcastServer.pollLoop platform (DiscoveryHost.onMessage lib clock) n (service, m)
      queue = .ok ((service', m'), queue')) :
    ∃ (clocks : List MessageClock) (k : ℕ),
      (machine lib platform hasEmitter).run ⟨⟨service, some queue⟩, some n, session⟩
        (clocks.map .updateTurn) =
      some ⟨⟨service', some queue'⟩, some k, listing session service'.availableDevices⟩ ∧
      (k = 0 ∨ queue' = []) := by
  induction queue generalizing n m service session with
  | nil =>
    refine ⟨[], n, ?_⟩
    cases n <;>
    · simp only [UdpBroadcastServer.pollLoop, Except.ok.injEq, Prod.mk.injEq] at h
      obtain ⟨⟨rfl, rfl⟩, rfl⟩ := h
      exact ⟨by rw [listing_eq_self hlist]; rfl, Or.inr rfl⟩
  | cons r queue ih =>
    cases n with
    | zero =>
      simp only [UdpBroadcastServer.pollLoop, Except.ok.injEq, Prod.mk.injEq] at h
      obtain ⟨⟨rfl, rfl⟩, rfl⟩ := h
      exact ⟨[], 0, by rw [listing_eq_self hlist]; rfl, Or.inl rfl⟩
    | succ n =>
      rw [UdpBroadcastServer.pollLoop] at h
      cases hread : UdpBroadcastServer.read platform r with
      | stop =>
        rw [hread] at h
        simp only [Except.ok.injEq, Prod.mk.injEq] at h
        obtain ⟨⟨rfl, rfl⟩, rfl⟩ := h
        refine ⟨[clock m], 0, ?_, Or.inl rfl⟩
        rw [listing_eq_self hlist]
        refine Option.bind_eq_some_iff.2 ⟨_, ?_, rfl⟩
        simp only [machine, step, updateTurn, hread]
      | skip =>
        rw [hread] at h
        obtain ⟨clocks, k, hrun, hk⟩ := ih hlist h
        refine ⟨clock m :: clocks, k, Option.bind_eq_some_iff.2 ⟨_, ?_, hrun⟩, hk⟩
        simp only [machine, step, updateTurn, hread]
      | emit msg =>
        rw [hread] at h
        obtain ⟨⟨t, m₁⟩, hmsg, h⟩ := Except.bind_eq_ok_iff.1 h
        obtain ⟨t', ht', hmsg⟩ := Except.bind_eq_ok_iff.1 hmsg
        obtain ⟨rfl, rfl⟩ := Prod.mk.inj (Except.ok.inj hmsg)
        -- the callback has stored the list, which is the one the rest begins with
        have hstored : (listing session t'.availableDevices).session.availableDevices =
            t'.availableDevices := rfl
        obtain ⟨clocks, k, hrun, hk⟩ := ih hstored h
        refine ⟨clock m :: clocks, k, Option.bind_eq_some_iff.2 ⟨_, ?_, hrun⟩, hk⟩
        simp only [machine, step, updateTurn, hread, ht']
        rfl

/-- The rest of `update` follows when the loop has ended. -/
theorem updateRest_of_done {d d' : DiscoveryService} {queue : Option (List Recv)} {k : ℕ}
    {session : SessionHost} {broadcast stale : UInt64} (hdone : k = 0 ∨ queue.getD [] = [])
    (h : d.update lib broadcast stale = .ok d') :
    updateRest lib ⟨⟨d, queue⟩, some k, session⟩ broadcast stale =
      some ⟨⟨d', queue⟩, none, listing session d'.availableDevices⟩ := by
  have hrest : updateRest lib ⟨⟨d, queue⟩, some k, session⟩ broadcast stale = (do
      let service ← (d.update lib broadcast stale).toOption
      return { store ⟨⟨d, queue⟩, some k, session⟩ service with updating := none }) := by
    cases k with
    | zero => rfl
    | succ k =>
      cases queue with
      | none => rfl
      | some queue =>
        obtain rfl : queue = [] := hdone.resolve_left (Nat.succ_ne_zero k)
        rfl
  rw [hrest, h]
  rfl

/-- An update of the discovery service with its socket is what its turns do, if nothing comes in
between. -/
theorem run_update {clock : ℕ → MessageClock} {broadcast stale : UInt64} {d : DiscoveryHost}
    (hidle : s.updating = none) (hpolling : s.session.polling = none)
    (hlist : s.session.session.availableDevices = s.discovery.service.availableDevices)
    (h : s.discovery.update lib platform clock broadcast stale = .ok d) :
    ∃ clocks : List MessageClock, (machine lib platform hasEmitter).run s
        (.update :: (clocks.map .updateTurn ++ [.updateRest broadcast stale])) =
      some ⟨d, none, listing s.session d.service.availableDevices⟩ := by
  obtain ⟨⟨service, queue⟩, updating, session⟩ := s
  obtain rfl : updating = none := hidle
  have hbegin : (machine lib platform hasEmitter).step ⟨⟨service, queue⟩, none, session⟩ .update =
      some ⟨⟨service, queue⟩, some (if service.broadcastServer then maxPerPoll else 0), session⟩ :=
    if_pos ⟨rfl, hpolling⟩
  obtain ⟨t, hpoll, h⟩ := Except.bind_eq_ok_iff.1 h
  obtain ⟨service', hupdate, h⟩ := Except.bind_eq_ok_iff.1 h
  obtain rfl := Except.ok.inj h
  suffices hturns : ∃ (clocks : List MessageClock) (k : ℕ),
      (machine lib platform hasEmitter).run
        ⟨⟨service, queue⟩, some (if service.broadcastServer then maxPerPoll else 0), session⟩
        (clocks.map .updateTurn) =
      some ⟨t, some k, listing session t.service.availableDevices⟩ ∧
      (k = 0 ∨ t.queue.getD [] = []) by
    obtain ⟨clocks, k, hrun, hdone⟩ := hturns
    have hrest : (machine lib platform hasEmitter).step
        ⟨t, some k, listing session t.service.availableDevices⟩ (.updateRest broadcast stale) =
        some ⟨⟨service', t.queue⟩, none, listing session service'.availableDevices⟩ :=
      updateRest_of_done hdone hupdate
    exact ⟨clocks, Option.bind_eq_some_iff.2
      ⟨_, hbegin, Machine.run_concat_eq_some.2 ⟨_, hrun, hrest⟩⟩⟩
  cases hserver : service.broadcastServer with
  | false =>
    rw [DiscoveryHost.pollServer_closed (Or.inl hserver)] at hpoll
    obtain rfl := Except.ok.inj hpoll
    exact ⟨[], 0, by rw [listing_eq_self hlist]; rfl, Or.inl rfl⟩
  | true =>
    cases queue with
    | none =>
      rw [DiscoveryHost.pollServer_closed (Or.inr rfl)] at hpoll
      obtain rfl := Except.ok.inj hpoll
      exact ⟨[], maxPerPoll, by rw [listing_eq_self hlist]; rfl, Or.inr rfl⟩
    | some queue =>
      simp only [DiscoveryHost.pollServer, hserver] at hpoll
      obtain ⟨⟨⟨t', m⟩, queue'⟩, hloop, hpoll⟩ := Except.bind_eq_ok_iff.1 hpoll
      obtain rfl := Except.ok.inj hpoll
      obtain ⟨clocks, k, hrun, hdone⟩ := run_pollLoop hlist hloop
      exact ⟨clocks, k, hrun, hdone⟩

/-! ## The services by themselves -/

/-- The datagram that arrives. -/
def Step.datagram? : Step → Option Recv
  | datagram r => some r
  | update | updateTurn _ | updateRest _ _ | cleanup _ | session _ => none

/-- The answer of the server's host that arrives. -/
def Step.packet? : Step → Option (Option ServerEvent)
  | session l => l.arrival?
  | datagram _ | update | updateTurn _ | updateRest _ _ | cleanup _ => none

/-- The message that a step of the discovery service handles. -/
def discovered? : Device.Step → Option Message
  | .discovery (.message msg _) => some msg
  | .discovery (.update _ _) | .discovery (.cleanup _) | .session _ => none

/-- The message that a step of the session handles. -/
def handled? : Device.Step → Option Message
  | .session l => SessionHost.handled? l
  | .discovery _ => none

/-- What a step does, as steps of the two services by themselves: a turn of a loop hands over one
message at most. -/
inductive Block : Step → List Device.Step → Prop where
  | datagram (r : Recv) : Block (.datagram r) []
  | update : Block .update []
  | updateTurn (clock : MessageClock) (msgs : List Message) (hlen : msgs.length ≤ 1) :
      Block (.updateTurn clock) (msgs.map fun msg => .discovery (.message msg clock))
  | updateRest (broadcast stale : UInt64) :
      Block (.updateRest broadcast stale) [.discovery (.update broadcast stale)]
  | cleanup (now : UInt64) : Block (.cleanup now) [.discovery (.cleanup now)]
  | arrive (answer : Option ServerEvent) : Block (.session (.arrive answer)) []
  | pollEvents : Block (.session .pollEvents) []
  | turn (msgs : List Message) (hlen : msgs.length ≤ 1) :
      Block (.session .turn) (msgs.map fun msg => .session (.message msg))
  | session (l : Session.Step) : Block (.session (.session l)) [.session l]

/-- The server that is polled is there. -/
def Polls (s : Program) : Prop :=
  ∀ n, s.updating = some (n + 1) → s.discovery.service.broadcastServer = true

/-- The services by themselves take the steps `steps`, on the messages of the datagrams `received`
from the front of the queue and of the answers `taken`. -/
structure Refines (lib : Nlohmann) (platform : Platform) (hasEmitter : Bool) (s : Program)
    (l : Step) (s' : Program) (steps : List Device.Step) (received : List Recv)
    (taken : List (Option ServerEvent)) : Prop where
  block : Block l steps
  runs : (Device.machine lib hasEmitter).run s.device steps = some s'.device
  discovered : steps.filterMap discovered? =
    received.filterMap (UdpBroadcastServer.message? platform)
  handled : steps.filterMap handled? = taken.filterMap UdpServer.message?
  inOrder : received <+: s.discovery.queue.getD []
  pending : ∀ queue', s'.discovery.queue = some queue' → ∃ queue, s.discovery.queue = some queue ∧
    received ++ queue' = queue ++ [l].filterMap Step.datagram?
  packets : taken ++ s'.session.queue = s.session.queue ++ [l].filterMap Step.packet?
  polls : s'.Polls

/-- A step that receives nothing and takes nothing leaves both queues. -/
theorem Refines.of_queues {l : Step} {steps : List Device.Step} (hblock : Block l steps)
    (hruns : (Device.machine lib hasEmitter).run s.device steps = some s'.device)
    (hdiscovered : steps.filterMap discovered? = []) (hhandled : steps.filterMap handled? = [])
    (hqueue : s'.discovery.queue = s.discovery.queue)
    (hpackets : s'.session.queue = s.session.queue) (hdatagram : l.datagram? = none)
    (hpacket : l.packet? = none) (hpolls : s'.Polls) :
    Refines lib platform hasEmitter s l s' steps [] [] where
  block := hblock
  runs := hruns
  discovered := hdiscovered
  handled := hhandled
  inOrder := List.nil_prefix
  pending queue hq := by
    refine ⟨queue, hqueue ▸ hq, ?_⟩
    rw [List.filterMap_cons_none hdatagram]
    exact (List.append_nil _).symm
  packets := by
    rw [List.filterMap_cons_none hpacket]
    exact hpackets.trans (List.append_nil _).symm
  polls := hpolls

/-- The services after a step of the discovery service. -/
def stored (s : Program) (service : DiscoveryService) : Device :=
  ⟨service, { s.session.session with availableDevices := service.availableDevices }⟩

theorem step_stored {l : DiscoveryService.Step} {service : DiscoveryService}
    (h : DiscoveryService.step lib s.discovery.service l = some service) :
    (Device.machine lib hasEmitter).run s.device [.discovery l] = some (s.stored service) :=
  Option.bind_eq_some_iff.2 ⟨_, Option.bind_eq_some_iff.2 ⟨service, h, rfl⟩, rfl⟩

/-- A run of the session that leaves the list alone is one of the device. -/
theorem run_session {d : Device} {block : List Session.Step} {t : Session}
    (hlisting : ∀ l ∈ block, Device.isListing l = false)
    (h : (Session.machine lib (d.host hasEmitter)).run d.session block = some t) :
    (Device.machine lib hasEmitter).run d (block.map .session) = some { d with session := t } := by
  induction block generalizing d with
  | nil =>
    obtain rfl := Option.some.inj h
    rfl
  | cons l block ih =>
    obtain ⟨u, hu, h⟩ := Option.bind_eq_some_iff.1 h
    obtain ⟨hl, hblock⟩ := List.forall_mem_cons.1 hlisting
    -- the session's step changes nothing of what the host is
    have hrest := ih (d := { d with session := u }) hblock h
    refine Option.bind_eq_some_iff.2 ⟨{ d with session := u }, ?_, hrest⟩
    change Session.step lib (d.host hasEmitter) d.session l = some u at hu
    simp only [Device.machine, Device.step, hl, Bool.false_eq_true, if_false, hu]
    rfl

/-- An iteration takes the first datagram, and the discovery service handles its message, if it is
emitted. -/
theorem updateTurn_cases {clock : MessageClock} (h : s.updateTurn lib platform clock = some s') :
    ∃ n r queue, s.updating = some (n + 1) ∧ s.discovery.queue = some (r :: queue) ∧
      s'.discovery.queue = some queue ∧ s'.session.queue = s.session.queue ∧
      ((UdpBroadcastServer.message? platform r = none ∧ s'.device = s.device) ∨
        ∃ msg service, UdpBroadcastServer.message? platform r = some msg ∧
          s.discovery.service.onMessage lib msg clock = .ok service ∧
          s'.device = s.stored service) := by
  rw [updateTurn] at h
  split at h
  next n r queue hupdating hqueue =>
    refine ⟨n, r, queue, hupdating, hqueue, ?_⟩
    cases hread : UdpBroadcastServer.read platform r with
    | stop =>
      rw [hread] at h
      obtain rfl := Option.some.inj h
      have hnone : UdpBroadcastServer.message? platform r = none := by
        rw [UdpBroadcastServer.message?, hread]
        rfl
      exact ⟨rfl, rfl, Or.inl ⟨hnone, rfl⟩⟩
    | skip =>
      rw [hread] at h
      obtain rfl := Option.some.inj h
      have hnone : UdpBroadcastServer.message? platform r = none := by
        rw [UdpBroadcastServer.message?, hread]
        rfl
      exact ⟨rfl, rfl, Or.inl ⟨hnone, rfl⟩⟩
    | emit msg =>
      rw [hread] at h
      obtain ⟨service, hmsg, h⟩ := Option.bind_eq_some_iff.1 h
      obtain rfl := Option.some.inj h
      have hsome : UdpBroadcastServer.message? platform r = some msg := by
        rw [UdpBroadcastServer.message?, hread]
        rfl
      exact ⟨rfl, rfl, Or.inr ⟨msg, service, hsome, Except.eq_ok_of_toOption hmsg, rfl⟩⟩
  next => cases h

/-- The rest of an update is an update of the discovery service. -/
theorem updateRest_eq_some {broadcast stale : UInt64}
    (h : s.updateRest lib broadcast stale = some s') :
    ∃ service, s.discovery.service.update lib broadcast stale = .ok service ∧
      s' = { s.store service with updating := none } := by
  rw [updateRest] at h
  split at h
  next => cases h
  next => cases h
  next =>
    obtain ⟨service, hupdate, h⟩ := Option.bind_eq_some_iff.1 h
    exact ⟨service, Except.eq_ok_of_toOption hupdate, (Option.some.inj h).symm⟩

/-- An iteration of the loop in `poll_events` is at most one message. -/
theorem refines_updateTurn {clock : MessageClock} (hs : s.Polls)
    (h : s.updateTurn lib platform clock = some s') : ∃ steps received,
    Refines lib platform hasEmitter s (.updateTurn clock) s' steps received [] := by
  obtain ⟨n, r, queue, hupdating, hqueue, hqueue', hpackets, hmsg⟩ := updateTurn_cases h
  have hserver := hs n hupdating
  have hinOrder : [r] <+: s.discovery.queue.getD [] := by
    rw [hqueue]
    exact ⟨queue, rfl⟩
  have hpending : ∀ q, s'.discovery.queue = some q → ∃ q₀, s.discovery.queue = some q₀ ∧
      [r] ++ q = q₀ ++ [Step.updateTurn clock].filterMap Step.datagram? := by
    intro q hq
    obtain rfl := Option.some.inj (hqueue'.symm.trans hq)
    exact ⟨_, hqueue, (List.append_nil _).symm⟩
  have hnothing : [] ++ s'.session.queue =
      s.session.queue ++ [Step.updateTurn clock].filterMap Step.packet? :=
    hpackets.trans (List.append_nil _).symm
  rcases hmsg with ⟨hnone, hdevice⟩ | ⟨msg, service, hsome, hmsg, hdevice⟩
  · refine ⟨[], [r], .updateTurn clock [] (Nat.zero_le 1), hdevice ▸ rfl, ?_, rfl, hinOrder,
      hpending, hnothing, fun _ _ => ?_⟩
    · rw [List.filterMap_cons_none hnone]
      rfl
    · exact (congrArg (·.discovery.broadcastServer) hdevice).trans hserver
  · have hstep : DiscoveryService.step lib s.discovery.service (.message msg clock) =
        some service := by
      rw [DiscoveryService.step, if_pos hserver, hmsg]
      rfl
    -- a datagram leaves the server running
    have hsaid := DiscoveryService.says_of_step (fun _ heq => by cases heq) hstep
    refine ⟨_, [r], .updateTurn clock [msg] le_rfl, hdevice ▸ step_stored hstep, ?_, rfl, hinOrder,
      hpending, hnothing, fun _ _ => ?_⟩
    · rw [List.filterMap_cons_some hsome]
      rfl
    · exact (congrArg (·.discovery.broadcastServer) hdevice).trans
        (hsaid.broadcastServer.trans hserver)

/-- A step of the session and its server, which is no write of the list of devices. -/
theorem session_eq_some {l : SessionHost.Step}
    (h : step lib platform hasEmitter s (.session l) = some s') :
    (∀ l', l = .session l' → Device.isListing l' = false) ∧
      ∃ t, SessionHost.step lib (s.device.host hasEmitter) s.session l = some t ∧
        s' = { s with session := t } := by
  obtain ⟨hallows, h⟩ := Option.ite_none_right_eq_some.1 h
  obtain ⟨t, ht, rfl⟩ := Option.map_eq_some_iff.1 h
  refine ⟨?_, t, ht, rfl⟩
  rintro l' rfl
  cases l' with
  | setAvailableDevices ds => cases hallows
  | _ => rfl

/-- A step of the session and its server is at most one message, or a step that is none. -/
theorem refines_session {l : SessionHost.Step} (hs : s.Polls)
    (h : step lib platform hasEmitter s (.session l) = some s') : ∃ steps taken,
    Refines lib platform hasEmitter s (.session l) s' steps [] taken := by
  obtain ⟨hlisting, t, ht, rfl⟩ := session_eq_some h
  have hpending : ∀ q, ({ s with session := t } : Program).discovery.queue = some q →
      ∃ q₀, s.discovery.queue = some q₀ ∧
        [] ++ q = q₀ ++ [Step.session l].filterMap Step.datagram? :=
    fun q hq => ⟨q, hq, (List.append_nil _).symm⟩
  cases l with
  | arrive answer =>
    obtain rfl := Option.some.inj ht
    exact ⟨[], [], .arrive answer, rfl, rfl, rfl, List.nil_prefix, hpending, rfl, hs⟩
  | pollEvents =>
    have hsame : t.session = s.session.session ∧ t.queue = s.session.queue := by
      simp only [SessionHost.step] at ht
      split at ht
      next =>
        obtain ⟨-, ht⟩ := Option.ite_none_right_eq_some.1 ht
        rw [← Option.some.inj ht]
        exact ⟨rfl, rfl⟩
      next =>
        rw [← Option.some.inj ht]
        exact ⟨rfl, rfl⟩
    refine ⟨[], [], .of_queues .pollEvents ?_ rfl rfl rfl hsame.2 rfl rfl hs⟩
    exact congrArg (fun u => some (⟨s.discovery.service, u⟩ : Device)) hsame.1.symm
  | turn =>
    obtain ⟨taken, hlen, htake, hruns, -⟩ :=
      SessionHost.takeTurn_spec (s.device.host hasEmitter) ht
    have hturn : (Polling.Turns.machine UdpServer.turn UdpServer.kMaxPerPoll).run
        ⟨[], s.session.queue, s.session.polling⟩ [.take] = some ⟨taken, t.queue, t.polling⟩ :=
      Option.bind_eq_some_iff.2 ⟨_, htake [], rfl⟩
    have hqueue : taken ++ t.queue = s.session.queue :=
      (Polling.turns_append hturn).trans (List.append_nil _)
    have hmsgs : (taken.filterMap UdpServer.message?).length ≤ 1 :=
      (List.length_filterMap_le _ _).trans hlen
    refine ⟨_, taken, .turn _ hmsgs, ?_, ?_, ?_, List.nil_prefix, hpending, ?_, hs⟩
    · have hmessages : ∀ l ∈ (taken.filterMap UdpServer.message?).map Session.Step.message,
          Device.isListing l = false := by
        intro l hl
        obtain ⟨msg, -, rfl⟩ := List.mem_map.1 hl
        rfl
      have hrun := run_session hmessages hruns
      rw [List.map_map] at hrun
      exact hrun
    · simp [List.filterMap_map, Function.comp_def, discovered?]
    · simp [List.filterMap_map, Function.comp_def, handled?, SessionHost.handled?]
    · exact hqueue.trans (List.append_nil _).symm
  | session l =>
    obtain ⟨hnone, u, hu, rfl⟩ := SessionHost.step_session ht
    have hrun : (Session.machine lib (s.device.host hasEmitter)).run s.device.session [l] =
        some u := Option.bind_eq_some_iff.2 ⟨u, hu, rfl⟩
    refine ⟨[.session l], [], .of_queues (.session l) ?_ rfl ?_ rfl rfl rfl rfl hs⟩
    · exact run_session (fun l' hl' => List.mem_singleton.1 hl' ▸ hlisting l rfl) hrun
    · exact List.filterMap_cons_none hnone

/-- Every step is a block of steps of the services by themselves. -/
theorem step_refines {l : Step} (hs : s.Polls) (h : step lib platform hasEmitter s l = some s') :
    ∃ steps received taken, Refines lib platform hasEmitter s l s' steps received taken := by
  cases l with
  | datagram r =>
    obtain rfl := Option.some.inj h
    refine ⟨[], [], [], .datagram r, rfl, rfl, rfl, List.nil_prefix, fun queue hq => ?_,
      (List.append_nil _).symm, hs⟩
    -- the datagram is behind those in the queue
    obtain ⟨queue₀, hqueue₀, rfl⟩ := Option.map_eq_some_iff.1 hq
    exact ⟨queue₀, hqueue₀, rfl⟩
  | update =>
    obtain ⟨-, h⟩ := Option.ite_none_right_eq_some.1 h
    obtain rfl := Option.some.inj h
    refine ⟨[], [], [], .of_queues .update rfl rfl rfl rfl rfl rfl rfl fun n hn => ?_⟩
    -- only a server that is there is polled
    by_contra hserver
    rw [if_neg hserver] at hn
    cases hn
  | updateTurn clock =>
    obtain ⟨steps, received, hrefines⟩ := refines_updateTurn hs h
    exact ⟨steps, received, [], hrefines⟩
  | updateRest broadcast stale =>
    obtain ⟨service, hupdate, rfl⟩ := updateRest_eq_some h
    have hstep : DiscoveryService.step lib s.discovery.service (.update broadcast stale) =
        some service := by
      rw [DiscoveryService.step, hupdate]
      rfl
    refine ⟨_, [], [], .of_queues (.updateRest broadcast stale) (step_stored hstep) rfl rfl rfl rfl
      rfl rfl fun n hn => ?_⟩
    -- the update has ended
    cases hn
  | cleanup now =>
    obtain ⟨⟨hidle, -⟩, h⟩ := Option.ite_none_right_eq_some.1 h
    obtain ⟨d, hcleanup, h⟩ := Option.bind_eq_some_iff.1 h
    obtain rfl := Option.some.inj h
    obtain ⟨service, hservice, hd⟩ := Except.bind_eq_ok_iff.1 (Except.eq_ok_of_toOption hcleanup)
    obtain rfl := Except.ok.inj hd
    have hstep : DiscoveryService.step lib s.discovery.service (.cleanup now) = some service := by
      rw [DiscoveryService.step, hservice]
      rfl
    refine ⟨_, [], [], .cleanup now, step_stored hstep, rfl, rfl, List.nil_prefix,
      fun queue hq => ?_, (List.append_nil _).symm, fun n hn => ?_⟩
    · -- the socket is closed
      cases hq
    · have hnone : s.updating = some (n + 1) := hn
      rw [hidle] at hnone
      cases hnone
  | session l =>
    obtain ⟨steps, taken, hrefines⟩ := refines_session hs h
    exact ⟨steps, [], taken, hrefines⟩

/-- The history of a run: the blocks of its steps, the datagrams received and the answers taken. -/
structure Follows (lib : Nlohmann) (platform : Platform) (hasEmitter : Bool) (s₀ : Program)
    (ls : List Step) (s : Program) (blocks : List (List Device.Step)) (received : List Recv)
    (taken : List (Option ServerEvent)) : Prop where
  block : List.Forall₂ Block ls blocks
  runs : (Device.machine lib hasEmitter).run s₀.device blocks.flatten = some s.device
  discovered : blocks.flatten.filterMap discovered? =
    received.filterMap (UdpBroadcastServer.message? platform)
  handled : blocks.flatten.filterMap handled? = taken.filterMap UdpServer.message?
  inOrder : received <+: s₀.discovery.queue.getD [] ++ ls.filterMap Step.datagram?
  pending : ∀ queue, s.discovery.queue = some queue →
    received ++ queue = s₀.discovery.queue.getD [] ++ ls.filterMap Step.datagram?
  packets : taken ++ s.session.queue = s₀.session.queue ++ ls.filterMap Step.packet?
  polls : s.Polls

/-- One more step, with what it takes. -/
theorem Follows.step {s₀ : Program} {ls : List Step} {l : Step}
    {blocks : List (List Device.Step)} {received : List Recv}
    {taken : List (Option ServerEvent)}
    (hF : Follows lib platform hasEmitter s₀ ls s blocks received taken)
    (h : Program.step lib platform hasEmitter s l = some s') : ∃ steps received' taken',
    Follows lib platform hasEmitter s₀ (ls ++ [l]) s' (blocks ++ [steps]) (received ++ received')
      (taken ++ taken') := by
  obtain ⟨steps, received', taken', hR⟩ := step_refines hF.polls h
  have hall : s₀.discovery.queue.getD [] ++ (ls ++ [l]).filterMap Step.datagram? =
      s₀.discovery.queue.getD [] ++ ls.filterMap Step.datagram? ++
        [l].filterMap Step.datagram? := by
    rw [List.filterMap_append, List.append_assoc]
  refine ⟨steps, received', taken', List.rel_append hF.block (.cons hR.block .nil), ?_, ?_, ?_, ?_,
    ?_, ?_, hR.polls⟩
  -- the blocks run one after the other
  · rw [List.flatten_append, List.flatten_singleton, Machine.run_append, hF.runs]
    exact hR.runs
  · rw [List.flatten_append, List.flatten_singleton, List.filterMap_append, hF.discovered,
      hR.discovered, List.filterMap_append]
  · rw [List.flatten_append, List.flatten_singleton, List.filterMap_append, hF.handled, hR.handled,
      List.filterMap_append]
  · rw [hall]
    refine List.IsPrefix.trans ?_ (List.prefix_append _ _)
    have hinOrder := hR.inOrder
    cases hq : s.discovery.queue with
    | none =>
      -- nothing can be received
      rw [hq] at hinOrder
      rw [List.prefix_nil.1 hinOrder, List.append_nil]
      exact hF.inOrder
    | some queue =>
      rw [hq] at hinOrder
      rw [← hF.pending queue hq]
      exact (List.prefix_append_right_inj _).2 hinOrder
  · intro queue' hq'
    obtain ⟨queue, hq, hsplit⟩ := hR.pending queue' hq'
    rw [hall, ← hF.pending queue hq, List.append_assoc, hsplit, List.append_assoc]
  · rw [List.append_assoc, hR.packets, ← List.append_assoc, hF.packets, List.filterMap_append,
      List.append_assoc]

/-- Every run of a program corresponds to one of its services by themselves. -/
theorem follows_of_run {s₀ : Program} {ls : List Step} (hs₀ : s₀.Polls)
    (h : (machine lib platform hasEmitter).run s₀ ls = some s) :
    ∃ blocks received taken, Follows lib platform hasEmitter s₀ ls s blocks received taken := by
  refine Machine.run_induction (motive := fun ls s => ∃ blocks received taken,
    Follows lib platform hasEmitter s₀ ls s blocks received taken) ?_ ?_ h
  · refine ⟨[], [], [], .nil, rfl, rfl, rfl, List.nil_prefix, fun queue hqueue => ?_,
      (List.append_nil _).symm, hs₀⟩
    rw [hqueue]
    exact (List.append_nil _).symm
  · rintro ls s l s' - ⟨blocks, received, taken, hF⟩ hstep
    obtain ⟨steps, received', taken', hF'⟩ := hF.step hstep
    exact ⟨_, _, _, hF'⟩

end Program

open Program in
/-- A program runs as its services do. For every run of a program with its sockets that does not
begin in the middle of a poll, over any interleaving of arrivals, turns of both polls, updates,
cleanups, clicks and UI tasks, there is a run of the two services by themselves to the same state,
in which each step is the block of steps that it does. The messages handled by each service are
those of the datagrams and answers that were received, each once and in order of arrival, and none
is lost: the others are still in the queues, that of the datagrams as long as the socket is open. -/
theorem program_refines {lib : Nlohmann} {platform : Platform} {hasEmitter : Bool}
    {s₀ s : Program} {ls : List Step} (hidle : s₀.updating = none)
    (h : (machine lib platform hasEmitter).run s₀ ls = some s) :
    ∃ blocks received taken, List.Forall₂ Block ls blocks ∧
      (Device.machine lib hasEmitter).run s₀.device blocks.flatten = some s.device ∧
      blocks.flatten.filterMap discovered? =
        received.filterMap (UdpBroadcastServer.message? platform) ∧
      blocks.flatten.filterMap handled? = taken.filterMap UdpServer.message? ∧
      received <+: s₀.discovery.queue.getD [] ++ ls.filterMap Step.datagram? ∧
      (∀ queue, s.discovery.queue = some queue →
        received ++ queue = s₀.discovery.queue.getD [] ++ ls.filterMap Step.datagram?) ∧
      taken ++ s.session.queue = s₀.session.queue ++ ls.filterMap Step.packet? := by
  have hs₀ : s₀.Polls := fun n hn => by
    rw [hidle] at hn
    cases hn
  obtain ⟨blocks, received, taken, hF⟩ := follows_of_run hs₀ h
  exact ⟨blocks, received, taken, hF.block, hF.runs, hF.discovered, hF.handled, hF.inOrder,
    hF.pending, hF.packets⟩

/-- A datagram and a request of `10.0.0.2` arrive, and are taken one after the other. Once the
receiver scene is shown, an event of `10.0.0.2` is taken. -/
def Program.hearAndAccept : List Program.Step :=
  [.datagram (.datagram (some (.ofString "10.0.0.2")) (.ofString "\x7b\"device_id\":\"b\"\x7d")),
    .session (.arrive (some (.receive (some (some (.ofString "10.0.0.2"))) (some (.ofString
      "\x7b\"__typename\":\"become_receiver\",\"payload\":\"\"\x7d"))))),
    .update, .updateTurn ⟨1, 1, 1⟩, .updateRest 1 1, .session .pollEvents, .session .turn,
    .session (.session .runUiTask), .session .turn,
    .session (.arrive (some (.receive (some (some (.ofString "10.0.0.2"))) (some (.ofString
      "\x7b\"__typename\":\"keyboard_input\",\"payload\":\"\x7b\\\"code\\\":30\x7d\"\x7d"))))),
    .session .pollEvents, .session .turn]

open Program in
/-- The program starts, and after this run an event of `10.0.0.2` is injected. -/
theorem Program.exists_hearAndAccept : ∃ d s,
    DiscoveryHost.init JsonText.nlohmann (.ofString "a") [] [] 0 0 true = .ok d ∧
      (machine JsonText.nlohmann .macos true).run (init d (.init 8801 true true)) hearAndAccept =
        some s ∧
      s.session.session.injected.map Injection.source = [.ofString "10.0.0.2"] := by
  have hrun : ∃ d ∈ (DiscoveryHost.init JsonText.nlohmann (.ofString "a") [] [] 0 0 true).toOption,
      ∃ s ∈ (machine JsonText.nlohmann .macos true).run (init d (.init 8801 true true))
        hearAndAccept,
      s.session.session.injected.map Injection.source = [.ofString "10.0.0.2"] := by
    decide +kernel
  obtain ⟨d, hd, s, hs, hinjected⟩ := hrun
  exact ⟨d, s, Except.eq_ok_of_toOption hd, hs, hinjected⟩

open Program in
/-- The services by themselves take the same request and the same event. -/
theorem program_refines_hearAndAccept : ∃ (d : DiscoveryHost) (s : Program)
    (blocks : List (List Device.Step)) (received : List Recv)
    (taken : List (Option ServerEvent)),
    (machine JsonText.nlohmann .macos true).run (init d (.init 8801 true true)) hearAndAccept =
        some s ∧
      s.session.session.injected.map Injection.source = [.ofString "10.0.0.2"] ∧
      List.Forall₂ Block hearAndAccept blocks ∧
      (Device.machine JsonText.nlohmann true).run (init d (.init 8801 true true)).device
        blocks.flatten = some s.device ∧
      blocks.flatten.filterMap discovered? =
        received.filterMap (UdpBroadcastServer.message? .macos) ∧
      blocks.flatten.filterMap handled? = taken.filterMap UdpServer.message? ∧
      taken ++ s.session.queue = hearAndAccept.filterMap Step.packet? := by
  obtain ⟨d, s, -, hs, hinjected⟩ := exists_hearAndAccept
  obtain ⟨blocks, received, taken, hblock, hruns, hdiscovered, hhandled, -, -, hpackets⟩ :=
    program_refines rfl hs
  exact ⟨d, s, blocks, received, taken, hs, hinjected, hblock, hruns, hdiscovered, hhandled,
    hpackets⟩

end Keyleport
