import Keyleport.Lib.Json.Text
import Keyleport.Networking.Connection
import Keyleport.Services.Packages

/-!
# The communication service

`services/communication/communication_service.cpp` on the side that sends. The service keeps one
UDP client, for the peer that is pinned, and makes a new one for every pin; the client before it is
destroyed then. The server of the service is modelled by itself.

* `ClientHost.machine`: the use of ENet that is allowed to a client, from the creation of its host
  to its destruction.
* `UdpClient.Frame`: what an operation of a client leaves alone, and what its calls are.
* `service_clients`: what all clients of a service do with ENet.
* `service_packets`: what they send, and to whom.
-/

namespace Keyleport

/-! ## The life of a client -/

/-- The calls of a client, with those that only its destructor makes. -/
inductive ClientCall where
  | use (c : EnetCall)
  /-- `enet_peer_disconnect`. -/
  | peerDisconnect (peer : ℕ)
  /-- `enet_host_destroy`. -/
  | hostDestroy
deriving DecidableEq, Repr

/-- Whether a call is one on the host of the client. -/
def EnetCall.needsHost : EnetCall → Bool
  | .hostService _ _ | .hostConnect _ _ _ | .readState _ | .peerReset _ | .peerSend _ _ _ _
  | .hostFlush => true
  | .hostCreate _ | .packetDestroy | .nowMs _ | .attempt _ => false

/-- ENet as one client sees it. -/
structure ClientHost where
  /-- Whether there is a host. -/
  host : Bool
  slot : EnetHost
deriving DecidableEq, Repr

namespace ClientHost

/-- Before the client is constructed. -/
def new : ClientHost := ⟨false, .new⟩

/-- A call that is allowed: there is at most one host, the host is used while there is one, and
destroyed when no peer is live. -/
def step (e : ClientHost) : ClientCall → Option ClientHost
  | .use (.hostCreate created) => if e.host then none else some { e with host := created }
  | .use c =>
      if c.needsHost && !e.host then none
      else (e.slot.step c).map fun slot => { e with slot := slot }
  | .peerDisconnect p => if e.host ∧ e.slot.live.map Prod.fst = some p then some e else none
  | .hostDestroy => if e.host ∧ e.slot.live = none then some { e with host := false } else none

/-- The allowed uses of ENet. -/
def machine : Machine ClientHost ClientCall := ⟨step⟩

variable {e e' : ClientHost} {c : EnetCall}

/-- A call that creates no host leaves the host alone. -/
theorem step_use (hc : ∀ created, c ≠ .hostCreate created) :
    step e (.use c) = if c.needsHost && !e.host then none
      else (e.slot.step c).map fun slot => { e with slot := slot } := by
  cases c with
  | hostCreate created => exact absurd rfl (hc created)
  | _ => rfl

theorem host_of_use (hc : ∀ created, c ≠ .hostCreate created) (h : step e (.use c) = some e') :
    e'.host = e.host ∧ (c.needsHost = true → e.host = true) := by
  rw [step_use hc] at h
  obtain ⟨hneeds, h⟩ := Option.ite_none_left_eq_some.1 h
  obtain ⟨slot, -, rfl⟩ := Option.map_eq_some_iff.1 h
  exact ⟨rfl, fun hneed => by simpa [hneed] using hneeds⟩

end ClientHost

namespace UdpClient

/-- The loop of the destructor. Without an outcome if ENet has no answer left. -/
def destroyLoop : ℕ → List Serviced → Option (List EnetCall)
  | 0, _ => some []
  | _ + 1, [] => none
  | turns + 1, r :: rs =>
      let call : EnetCall := .hostService r.event r.state
      if r.event = some .disconnect then some [call]
      else (destroyLoop turns rs).map fun calls => call :: calls

/-- The destructor, as far as it disconnects. -/
def disconnect (s : UdpClient) (serviced : List Serviced) : Option (List ClientCall) :=
  match s.peer with
  | some p => (destroyLoop 3 serviced).map fun calls =>
      .peerDisconnect p :: (calls ++ [.peerReset p]).map .use
  | none => some []

/-- The calls of the destructor. -/
def destroy (s : UdpClient) (serviced : List Serviced) : Option (List ClientCall) :=
  (s.disconnect serviced).map fun calls => calls ++ if s.host then [.hostDestroy] else []

end UdpClient

/-! ## The service -/

/-- `communication_service`, with the clients it has destroyed. -/
structure CommunicationService where
  udpClient : Option UdpClient
  pinnedPeer : Option Peer
  /-- The clients destroyed, oldest first, each with all its calls. -/
  ended : List (UdpClient × List ClientCall)
deriving DecidableEq, Repr

namespace CommunicationService

/-- `default_communication_port_`. -/
def defaultCommunicationPort : Int32 := 8801

/-- A new service. -/
def init : CommunicationService := ⟨none, none, []⟩

/-- `udp_client_.reset()`, with the answers of ENet to the destructor. -/
def resetClient (s : CommunicationService) (serviced : List Serviced) :
    Option CommunicationService :=
  match s.udpClient with
  | none => some s
  | some client => do
      let calls ← client.destroy serviced
      return { s with
        udpClient := none
        ended := s.ended ++ [(client, client.calls.map .use ++ calls)] }

/-- `pin_connection`, with whether the new client gets a host. -/
def pinConnection (s : CommunicationService) (targetPeer : Peer) (hostCreated : Bool)
    (serviced : List Serviced) : Option CommunicationService := do
  let client := UdpClient.init targetPeer.ipAddress defaultCommunicationPort hostCreated
  -- the assignment destroys the client before
  let s ← { s with pinnedPeer := some targetPeer }.resetClient serviced
  return { s with udpClient := some client }

/-- `unpin_connection`. -/
def unpinConnection (s : CommunicationService) (serviced : List Serviced) :
    Option CommunicationService :=
  { s with pinnedPeer := none }.resetClient serviced

/-- `cleanup`. The peer stays pinned. -/
def cleanup (s : CommunicationService) (serviced : List Serviced) : Option CommunicationService :=
  s.resetClient serviced

/-- `send_package_reliable` or `send_package_unreliable`. Without an outcome if the package cannot
be encoded. -/
def sendPackage (lib : Nlohmann) (isReliable : Bool) (s : CommunicationService)
    (package : TypedPackage) (answers : SendAnswers) : Option CommunicationService :=
  match s.udpClient, s.pinnedPeer with
  | some client, some peer => do
      let payload ← (package.encode lib).toOption
      let client ← client.sendImpl ⟨.self, peer, payload⟩ isReliable answers
      return { s with udpClient := some client }
  | _, _ => some s

/-- `update`, without the polling of the server. -/
def update (s : CommunicationService) (polled : List (EnetEventType × EnetPeerState))
    (idle : EnetPeerState) : CommunicationService :=
  { s with udpClient := s.udpClient.map fun client => client.flushPendingMessages polled idle }

/-- The calls of a service. -/
inductive Step where
  | pinConnection (targetPeer : Peer) (hostCreated : Bool) (serviced : List Serviced)
  | unpinConnection (serviced : List Serviced)
  | sendPackageReliable (package : TypedPackage) (answers : SendAnswers)
  | sendPackageUnreliable (package : TypedPackage) (answers : SendAnswers)
  | update (polled : List (EnetEventType × EnetPeerState)) (idle : EnetPeerState)
  | cleanup (serviced : List Serviced)
deriving DecidableEq, Repr

/-- One call. -/
def step (lib : Nlohmann) (s : CommunicationService) : Step → Option CommunicationService
  | .pinConnection targetPeer hostCreated serviced =>
      s.pinConnection targetPeer hostCreated serviced
  | .unpinConnection serviced => s.unpinConnection serviced
  | .sendPackageReliable package answers => s.sendPackage lib true package answers
  | .sendPackageUnreliable package answers => s.sendPackage lib false package answers
  | .update polled idle => some (s.update polled idle)
  | .cleanup serviced => s.cleanup serviced

/-- The service as a machine. -/
def machine (lib : Nlohmann) : Machine CommunicationService Step := ⟨step lib⟩

/-- All clients there were, oldest first. -/
def clients (s : CommunicationService) : List UdpClient :=
  s.ended.map Prod.fst ++ s.udpClient.toList

/-- The packets handed to ENet by all clients, each with the address of its client. -/
def packets (s : CommunicationService) : List (StdString × UInt8 × EnetPacketFlag × StdString) :=
  s.clients.flatMap fun client => client.packets.map (client.ip, ·)

/-! ## What is asked of a service -/

/-- The address that packages go to after a call. -/
def targetAfter (target : Option StdString) : Step → Option StdString
  | .pinConnection targetPeer _ _ => some targetPeer.ipAddress
  | .unpinConnection _ | .cleanup _ => none
  | _ => target

/-- The packet that a call asks for. -/
def request? (lib : Nlohmann) : Step → Option (UInt8 × EnetPacketFlag × StdString)
  | .sendPackageReliable package _ =>
      (package.encode lib).toOption.map (UdpClient.packetOf true)
  | .sendPackageUnreliable package _ =>
      (package.encode lib).toOption.map (UdpClient.packetOf false)
  | _ => none

/-- The packets asked for by the calls, oldest first, each with the address pinned then. -/
def requests (lib : Nlohmann) (target : Option StdString) :
    List Step → List (StdString × UInt8 × EnetPacketFlag × StdString)
  | [] => []
  | l :: ls =>
      (target.bind fun ip => (request? lib l).map (ip, ·)).toList ++
        requests lib (targetAfter target l) ls

end CommunicationService

/-! ## What an operation of a client leaves alone -/

namespace UdpClient

variable {s s' t : UdpClient} {answers : SendAnswers}

/-- A call that needs a host, if any, and connects to the address of the client. -/
def Fits (s : UdpClient) : EnetCall → Prop
  | .hostCreate _ => False
  | .hostConnect ip port _ => ip = s.ip ∧ port = s.port.toUInt32.toUInt16
  | _ => True

/-- The configuration and the host stay, and the new calls fit. -/
structure Frame (s s' : UdpClient) : Prop where
  ip : s'.ip = s.ip
  port : s'.port = s.port
  host : s'.host = s.host
  calls : ∃ new, s'.calls = s.calls ++ new ∧ ∀ c ∈ new, s.Fits c

theorem Frame.refl (s : UdpClient) : Frame s s :=
  ⟨rfl, rfl, rfl, [], (List.append_nil _).symm, by simp⟩

theorem Frame.trans (h : Frame s t) (h' : Frame t s') : Frame s s' := by
  obtain ⟨new, hnew, hfits⟩ := h.calls
  obtain ⟨new', hnew', hfits'⟩ := h'.calls
  refine ⟨h'.ip.trans h.ip, h'.port.trans h.port, h'.host.trans h.host, new ++ new', ?_, ?_⟩
  · rw [hnew', hnew, List.append_assoc]
  · intro c hc
    rcases List.mem_append.1 hc with hc | hc
    · exact hfits c hc
    · have hc' := hfits' c hc
      cases c with
      | hostCreate created => exact hc'
      | hostConnect ip port peer => exact ⟨hc'.1.trans h.ip, h.port ▸ hc'.2⟩
      | _ => trivial

/-- One call that fits. -/
theorem Frame.concat (c : EnetCall) (hc : s.Fits c) (hip : s'.ip = s.ip)
    (hport : s'.port = s.port) (hhost : s'.host = s.host) (hcalls : s'.calls = s.calls ++ [c]) :
    Frame s s' := by
  refine ⟨hip, hport, hhost, [c], hcalls, fun c' hc' => ?_⟩
  rwa [List.mem_singleton.1 hc']

theorem frame_call (s : UdpClient) {c : EnetCall} (hc : s.Fits c) : Frame s (s.call c) :=
  .concat c hc rfl rfl rfl rfl

theorem frame_hostService (s : UdpClient) (r : Serviced) : Frame s (s.hostService r) :=
  .concat (.hostService r.event r.state) trivial rfl rfl rfl rfl

theorem frame_readState (s : UdpClient) (p : ℕ) : Frame s (s.call (.readState p)) :=
  frame_call s trivial

theorem frame_resetPeer (s : UdpClient) : Frame s s.resetPeer := by
  rw [resetPeer]
  split
  next p _ => exact .concat (.peerReset p) trivial rfl rfl rfl rfl
  next => exact .refl s

theorem frame_pollLoop (s : UdpClient) (polled : List (EnetEventType × EnetPeerState)) :
    Frame s (s.pollLoop polled) := by
  induction polled generalizing s with
  | nil => exact .refl s
  | cons e polled ih =>
    have hserviced := frame_hostService s ⟨some e.1, e.2⟩
    rw [pollLoop]
    split
    · exact (hserviced.trans (frame_resetPeer _)).trans (ih _)
    · exact hserviced.trans (ih _)

theorem frame_flushLoop (budget : ℕ) (s : UdpClient)
    (polled : List (EnetEventType × EnetPeerState)) (idle : EnetPeerState) :
    Frame s (flushLoop budget s polled idle) := by
  induction budget generalizing s polled with
  | zero => exact .refl s
  | succ budget ih =>
    cases polled with
    | nil => exact frame_hostService s _
    | cons e polled =>
      have hserviced := frame_hostService s ⟨some e.1, e.2⟩
      rw [flushLoop]
      split
      · exact (hserviced.trans (frame_resetPeer _)).trans (ih _ _)
      · exact hserviced.trans (ih _ _)

theorem frame_connectLoop {p timeoutMs elapsed : ℕ} {rs : List Serviced} {q : Option ℕ}
    (h : connectLoop p timeoutMs elapsed s rs = some (q, s')) : Frame s s' := by
  have hreset : ∀ t : UdpClient, Frame t (t.call (.peerReset p)) := fun t => frame_call t trivial
  induction rs generalizing s elapsed with
  | nil =>
    rw [connectLoop] at h
    split at h
    · cases h
    · obtain ⟨-, rfl⟩ := Prod.mk.inj (Option.some.inj h)
      exact hreset s
  | cons r rs ih =>
    have hserviced := frame_hostService s r
    rw [connectLoop] at h
    split at h
    · split at h
      · obtain ⟨-, rfl⟩ := Prod.mk.inj (Option.some.inj h)
        exact hserviced
      · split at h
        · obtain ⟨-, rfl⟩ := Prod.mk.inj (Option.some.inj h)
          exact hserviced.trans (hreset _)
        · exact hserviced.trans (ih h)
    · obtain ⟨-, rfl⟩ := Prod.mk.inj (Option.some.inj h)
      exact hreset s

theorem frame_connectPeer {q : Option ℕ} (h : s.connectPeer answers = some (q, s')) :
    Frame s s' := by
  rw [connectPeer] at h
  split at h
  · obtain ⟨-, rfl⟩ := Prod.mk.inj (Option.some.inj h)
    exact .refl s
  · split at h
    · obtain ⟨-, rfl⟩ := Prod.mk.inj (Option.some.inj h)
      exact .refl s
    · -- the address is that of the configuration
      have hfits : ∀ peer, s.Fits (.hostConnect s.ip s.port.toUInt32.toUInt16 peer) :=
        fun _ => ⟨rfl, rfl⟩
      simp only at h
      split at h
      · obtain ⟨-, rfl⟩ := Prod.mk.inj (Option.some.inj h)
        exact frame_call s (hfits none)
      · have hconnect : Frame s (s.hostConnect s.port.toUInt32.toUInt16) :=
          .concat _ (hfits (some s.given)) rfl rfl rfl rfl
        exact hconnect.trans (frame_connectLoop h)

theorem frame_adoptPeer (s : UdpClient) (q : Option ℕ) : Frame s (s.adoptPeer q).2 := by
  have hpeer : Frame s { s with peer := q } :=
    ⟨rfl, rfl, rfl, [], (List.append_nil _).symm, by simp⟩
  cases q with
  | none => exact hpeer
  | some p =>
    have hread := hpeer.trans (frame_readState _ p)
    rw [adoptPeer]
    split
    · exact hread
    · exact (hread.trans (frame_readState _ p)).trans (frame_resetPeer _)

theorem frame_tryConnect {connected : Bool} (h : s.tryConnect answers = some (connected, s')) :
    Frame s s' := by
  have hread : Frame s (s.call (.nowMs answers.now)) := frame_call s trivial
  have hattempt : Frame s ((s.call (.nowMs answers.now)).startAttempt answers.now) :=
    hread.trans (.concat (.attempt answers.now) trivial rfl rfl rfl rfl)
  rw [tryConnect] at h
  simp only at h
  split at h
  · obtain ⟨-, rfl⟩ := Prod.mk.inj (Option.some.inj h)
    exact hread
  · split at h
    · obtain ⟨-, rfl⟩ := Prod.mk.inj (Option.some.inj h)
      exact hattempt
    · obtain ⟨⟨q, t⟩, hconnect, h⟩ := Option.bind_eq_some_iff.1 h
      have hadopt := frame_adoptPeer t q
      rw [Option.some.inj h] at hadopt
      exact (hattempt.trans (frame_connectPeer hconnect)).trans hadopt

theorem frame_ensureConnected {connected : Bool}
    (h : s.ensureConnected answers = some (connected, s')) : Frame s s' := by
  rw [ensureConnected] at h
  split at h
  next p hp =>
    have hread := frame_readState s p
    simp only at h
    split at h
    · obtain ⟨-, rfl⟩ := Prod.mk.inj (Option.some.inj h)
      exact hread
    · exact ((hread.trans (frame_readState _ p)).trans (frame_resetPeer _)).trans
        (frame_tryConnect h)
  next => exact frame_tryConnect h

theorem frame_sendPacket (s : UdpClient) (payload : StdString) (isReliable : Bool)
    (answers : SendAnswers) : Frame s (s.sendPacket payload isReliable answers) := by
  simp only [sendPacket]
  split
  · exact .refl s
  · have hsend : ∀ channel flag, Frame s (s.call (.peerSend s.peer channel flag payload)) :=
      fun _ _ => frame_call s trivial
    split
    · exact (hsend _ _).trans (frame_call _ trivial)
    · exact (hsend _ _).trans (frame_call _ trivial)

/-! ## The host of a client -/

/-- What a call needs and does of a host. -/
def hostStep (host : Bool) : EnetCall → Option Bool
  | .hostCreate created => if host then none else some created
  | c => if c.needsHost && !host then none else some host

/-- The uses of a host that is created once, as a machine. -/
def hostMachine : Machine Bool EnetCall := ⟨hostStep⟩

/-- A call that creates no host needs one or not. -/
theorem hostStep_eq {c : EnetCall} (hc : ∀ created, c ≠ .hostCreate created) (host : Bool) :
    hostStep host c = if c.needsHost && !host then none else some host := by
  cases c with
  | hostCreate created => exact absurd rfl (hc created)
  | _ => rfl

/-- Each of the two machines allows its part of a call. -/
theorem clientHost_step {host host' : Bool} {e e' : EnetHost} {c : EnetCall}
    (hhost : hostStep host c = some host') (hslot : EnetHost.step e c = some e') :
    ClientHost.step ⟨host, e⟩ (.use c) = some ⟨host', e'⟩ := by
  by_cases hcreate : ∃ created, c = .hostCreate created
  · obtain ⟨created, rfl⟩ := hcreate
    obtain ⟨hnone, hhost⟩ := Option.ite_none_left_eq_some.1 hhost
    obtain rfl := Option.some.inj hslot
    obtain rfl := Option.some.inj hhost
    exact if_neg hnone
  · have hc : ∀ created, c ≠ .hostCreate created := fun created heq => hcreate ⟨created, heq⟩
    rw [hostStep_eq hc] at hhost
    obtain ⟨hneeds, hhost⟩ := Option.ite_none_left_eq_some.1 hhost
    obtain rfl := Option.some.inj hhost
    rw [ClientHost.step_use hc, if_neg hneeds, hslot]
    rfl

/-- So both allow a run of calls together. -/
theorem clientHost_run {calls : List EnetCall} {host host' : Bool} {e e' : EnetHost}
    (hhost : hostMachine.run host calls = some host')
    (hslot : EnetHost.machine.run e calls = some e') :
    ClientHost.machine.run ⟨host, e⟩ (calls.map .use) = some ⟨host', e'⟩ := by
  induction calls generalizing host e with
  | nil =>
    obtain rfl := Option.some.inj hhost
    obtain rfl := Option.some.inj hslot
    rfl
  | cons c calls ih =>
    obtain ⟨host₁, hhost₁, hhost⟩ := Option.bind_eq_some_iff.1 hhost
    obtain ⟨e₁, hslot₁, hslot⟩ := Option.bind_eq_some_iff.1 hslot
    rw [List.map_cons, Machine.run_cons]
    exact Option.bind_eq_some_iff.2 ⟨_, clientHost_step hhost₁ hslot₁, ih hhost hslot⟩

/-- The host is created before it is used, and connections are to the configured address. -/
structure Located (s : UdpClient) : Prop where
  host : hostMachine.run false s.calls = some s.host
  connects : ∀ ip port peer, .hostConnect ip port peer ∈ s.calls →
    ip = s.ip ∧ port = s.port.toUInt32.toUInt16

theorem Located.init (ip : StdString) (port : Int32) (hostCreated : Bool) :
    (init ip port hostCreated).Located :=
  ⟨rfl, by simp [UdpClient.init]⟩

/-- Calls that fit are allowed while there is a host. -/
theorem hostMachine_run_of_fits {calls : List EnetCall} (h : ∀ c ∈ calls, s.Fits c) :
    hostMachine.run true calls = some true := by
  induction calls with
  | nil => rfl
  | cons c calls ih =>
    rw [List.forall_mem_cons] at h
    have hc : hostStep true c = some true := by
      rw [hostStep_eq fun created heq => by rw [heq] at h; exact h.1]
      exact if_neg (by simp)
    exact Option.bind_eq_some_iff.2 ⟨_, hc, ih h.2⟩

theorem Located.frame (h : s.Located) (hhost : s.host = true) (hframe : Frame s s') :
    s'.Located := by
  obtain ⟨new, hnew, hfits⟩ := hframe.calls
  constructor
  · rw [hnew, Machine.run_append, h.host, hhost]
    show hostMachine.run true new = some s'.host
    rw [hostMachine_run_of_fits hfits, hframe.host, hhost]
  · intro ip port peer hmem
    rw [hframe.ip, hframe.port]
    rw [hnew] at hmem
    rcases List.mem_append.1 hmem with hmem | hmem
    · exact h.connects ip port peer hmem
    · exact hfits _ hmem

theorem Located.ensureHost (h : s.Located) (created : Bool) : (s.ensureHost created).Located := by
  rw [UdpClient.ensureHost]
  split
  · exact h
  next hnone =>
    have hnone : s.host = false := by simpa using hnone
    refine ⟨Machine.run_concat_eq_some.2 ⟨_, h.host, by rw [hnone]; rfl⟩, ?_⟩
    intro ip port peer hmem
    exact h.connects ip port peer (by simpa using hmem)

/-- The address of a client does not change. -/
theorem ensureHost_address (s : UdpClient) (created : Bool) :
    (s.ensureHost created).ip = s.ip ∧ (s.ensureHost created).port = s.port := by
  rw [UdpClient.ensureHost]
  split <;> exact ⟨rfl, rfl⟩

theorem Located.sendImpl {msg : Message} {isReliable : Bool} (h : s.Located)
    (hsend : s.sendImpl msg isReliable answers = some s') :
    s'.Located ∧ s'.ip = s.ip ∧ s'.port = s.port := by
  simp only [UdpClient.sendImpl] at hsend
  split at hsend
  · exact Option.some.inj hsend ▸ ⟨h, rfl, rfl⟩
  · have hhost := h.ensureHost answers.hostCreated
    obtain ⟨hip, hport⟩ := ensureHost_address s answers.hostCreated
    split at hsend
    · exact Option.some.inj hsend ▸ ⟨hhost, hip, hport⟩
    next hcreated =>
      have hcreated : (s.ensureHost answers.hostCreated).host = true := by simpa using hcreated
      obtain ⟨⟨connected, t⟩, hensure, hsend⟩ := Option.bind_eq_some_iff.1 hsend
      obtain rfl := Option.some.inj hsend
      have hpolled := ((frame_pollLoop (s.ensureHost answers.hostCreated) answers.polled).trans
        (frame_hostService _ ⟨none, answers.idle⟩)).trans (frame_ensureConnected hensure)
      have hall : Frame (s.ensureHost answers.hostCreated)
          (if connected then t.sendPacket msg.payload isReliable answers else t) := by
        cases connected with
        | false => exact hpolled
        | true => exact hpolled.trans (frame_sendPacket t msg.payload isReliable answers)
      exact ⟨hhost.frame hcreated hall, hall.ip.trans hip, hall.port.trans hport⟩

theorem Located.flushPendingMessages (h : s.Located)
    (polled : List (EnetEventType × EnetPeerState)) (idle : EnetPeerState) :
    (s.flushPendingMessages polled idle).Located ∧
      (s.flushPendingMessages polled idle).ip = s.ip ∧
      (s.flushPendingMessages polled idle).port = s.port := by
  rw [UdpClient.flushPendingMessages]
  split
  · exact ⟨h, rfl, rfl⟩
  next hhost =>
    have hflushed : Frame s ((s.flushServiceEvents polled idle).call .hostFlush) :=
      (frame_flushLoop 16 s polled idle).trans (frame_call _ trivial)
    exact ⟨h.frame (by simpa using hhost) hflushed, hflushed.ip, hflushed.port⟩

/-! ## The destructor -/

/-- The calls of a client are an allowed use of ENet that leaves its host and its peer. -/
theorem clientHost_uses (hs : s.Consistent) (h : s.Located) :
    ClientHost.machine.run .new (s.calls.map .use) =
      some ⟨s.host, ⟨s.given, s.peer.map fun p => (p, s.peerState)⟩⟩ :=
  clientHost_run h.host hs

/-- Servicing the host keeps the peer, in some state. -/
theorem destroyLoop_run {turns given p : ℕ} {rs : List Serviced} {calls : List EnetCall}
    {state : EnetPeerState} (h : destroyLoop turns rs = some calls) : ∃ state',
      ClientHost.machine.run ⟨true, ⟨given, some (p, state)⟩⟩ (calls.map .use) =
        some ⟨true, ⟨given, some (p, state')⟩⟩ := by
  induction turns generalizing rs calls state with
  | zero =>
    obtain rfl := Option.some.inj h
    exact ⟨state, rfl⟩
  | succ turns ih =>
    cases rs with
    | nil => cases h
    | cons r rs =>
      rw [destroyLoop] at h
      split at h
      · obtain rfl := Option.some.inj h
        exact ⟨r.state, rfl⟩
      · obtain ⟨rest, hrest, rfl⟩ := Option.map_eq_some_iff.1 h
        obtain ⟨state', hrun⟩ : ∃ state', ClientHost.machine.run
            ⟨true, ⟨given, some (p, r.state)⟩⟩ (rest.map .use) =
              some ⟨true, ⟨given, some (p, state')⟩⟩ := ih hrest
        exact ⟨state', hrun⟩

/-- There is a live peer only while there is a host. -/
theorem clientHost_host {calls : List ClientCall} {e : ClientHost}
    (h : ClientHost.machine.run .new calls = some e) : e.slot.live ≠ none → e.host = true := by
  refine Machine.run_invariant (M := ClientHost.machine)
    (I := fun e => e.slot.live ≠ none → e.host = true) ?_ (fun hlive => absurd rfl hlive) h
  intro e c e' hI hstep
  cases c with
  | use c =>
    by_cases hcreate : ∃ created, c = .hostCreate created
    · obtain ⟨created, rfl⟩ := hcreate
      obtain ⟨hnone, hstep⟩ := Option.ite_none_left_eq_some.1 hstep
      obtain rfl := Option.some.inj hstep
      exact fun hlive => absurd (hI hlive) hnone
    · have hc : ∀ created, c ≠ .hostCreate created := fun created heq => hcreate ⟨created, heq⟩
      obtain ⟨hhost, hneeded⟩ := ClientHost.host_of_use hc hstep
      rw [hhost]
      by_cases hneeds : c.needsHost = true
      · exact fun _ => hneeded hneeds
      · -- the other calls leave the peer alone
        obtain ⟨-, hstep⟩ := Option.ite_none_left_eq_some.1
          ((ClientHost.step_use hc).symm.trans hstep)
        obtain ⟨slot, hslot, rfl⟩ := Option.map_eq_some_iff.1 hstep
        have hsame : slot = e.slot := by
          cases c with
          | hostCreate created => exact absurd rfl (hc created)
          | packetDestroy => exact (Option.some.inj hslot).symm
          | nowMs now => exact (Option.some.inj hslot).symm
          | attempt now => exact (Option.some.inj hslot).symm
          | _ => exact absurd rfl hneeds
        rw [hsame]
        exact hI
  | peerDisconnect p =>
    obtain ⟨-, hstep⟩ := Option.ite_none_right_eq_some.1 hstep
    exact Option.some.inj hstep ▸ hI
  | hostDestroy =>
    obtain ⟨⟨-, hnone⟩, hstep⟩ := Option.ite_none_right_eq_some.1 hstep
    obtain rfl := Option.some.inj hstep
    exact fun hlive => absurd hnone hlive

/-- The destructor resets the peer and destroys the host. -/
theorem destroy_run (hs : s.Consistent) (h : s.Located) {serviced : List Serviced}
    {calls : List ClientCall} (hdestroy : s.destroy serviced = some calls) :
    ClientHost.machine.run .new (s.calls.map .use ++ calls) =
      some ⟨false, ⟨s.given, none⟩⟩ := by
  obtain ⟨disconnecting, hdisconnect, rfl⟩ := Option.map_eq_some_iff.1 hdestroy
  have huses := clientHost_uses hs h
  have hlive := clientHost_host huses
  rw [Machine.run_append, huses, Option.bind_some]
  cases hp : s.peer with
  | none =>
    rw [disconnect, hp] at hdisconnect
    obtain rfl := Option.some.inj hdisconnect
    cases s.host <;> rfl
  | some p =>
    rw [disconnect, hp] at hdisconnect
    rw [hp] at hlive
    have hhost : s.host = true := hlive nofun
    obtain ⟨loop, hloop, rfl⟩ := Option.map_eq_some_iff.1 hdisconnect
    obtain ⟨state, hrun⟩ : ∃ state, ClientHost.machine.run
        ⟨true, ⟨s.given, some (p, s.peerState)⟩⟩ (loop.map .use) =
          some ⟨true, ⟨s.given, some (p, state)⟩⟩ := destroyLoop_run hloop
    have hdisconnected : ClientHost.step ⟨true, ⟨s.given, some (p, s.peerState)⟩⟩
        (.peerDisconnect p) = some ⟨true, ⟨s.given, some (p, s.peerState)⟩⟩ := if_pos ⟨rfl, rfl⟩
    have hreset : ClientHost.machine.run ⟨true, ⟨s.given, some (p, state)⟩⟩
        [.use (.peerReset p), .hostDestroy] = some ⟨false, ⟨s.given, none⟩⟩ := by
      simp [Machine.run, ClientHost.machine, ClientHost.step, EnetCall.needsHost, EnetHost.step]
    rw [hhost, if_pos rfl, List.map_append, List.cons_append, Machine.run_cons]
    refine Option.bind_eq_some_iff.2 ⟨_, hdisconnected, ?_⟩
    rw [List.append_assoc, Machine.run_append, hrun]
    exact hreset

end UdpClient

/-- Each host that was created is destroyed once, but for the one there is. -/
theorem ClientHost.count_hostDestroy {calls : List ClientCall} {e : ClientHost}
    (h : ClientHost.machine.run .new calls = some e) :
    calls.count .hostDestroy + e.host.toNat = calls.count (.use (.hostCreate true)) := by
  refine Machine.run_induction (M := ClientHost.machine) (motive := fun calls e =>
    calls.count .hostDestroy + e.host.toNat = calls.count (.use (.hostCreate true))) rfl ?_ h
  intro calls e c e' _ ih hstep
  rw [List.count_append, List.count_append]
  cases c with
  | use c =>
    by_cases hcreate : ∃ created, c = .hostCreate created
    · obtain ⟨created, rfl⟩ := hcreate
      obtain ⟨hnone, hstep⟩ := Option.ite_none_left_eq_some.1 hstep
      obtain rfl := Option.some.inj hstep
      have hnone : e.host = false := by simpa using hnone
      rw [hnone] at ih
      cases created <;> simp_all
    · have hhost := (ClientHost.host_of_use (fun created heq => hcreate ⟨created, heq⟩) hstep).1
      have hne : (ClientCall.use c == .use (.hostCreate true)) = false := by
        simp only [beq_eq_false_iff_ne, ne_eq, ClientCall.use.injEq]
        exact fun heq => hcreate ⟨true, heq⟩
      rw [hhost, List.count_singleton, List.count_singleton, hne]
      simpa using ih
  | peerDisconnect p =>
    obtain ⟨-, hstep⟩ := Option.ite_none_right_eq_some.1 hstep
    obtain rfl := Option.some.inj hstep
    simpa using ih
  | hostDestroy =>
    obtain ⟨⟨hhost, -⟩, hstep⟩ := Option.ite_none_right_eq_some.1 hstep
    obtain rfl := Option.some.inj hstep
    simpa [hhost] using ih

/-! ## The clients of a service -/

namespace CommunicationService

open UdpClient

variable {lib : Nlohmann} {s s' : CommunicationService} {target : Option StdString}

/-- What holds of every client of a service. -/
structure Client (client : UdpClient) : Prop where
  consistent : client.Consistent
  located : client.Located
  port : client.port = defaultCommunicationPort

/-- What holds of the clients, whatever is pinned. -/
structure Accounted (s : CommunicationService) : Prop where
  clients : ∀ client ∈ s.clients, Client client
  ended : ∀ e ∈ s.ended, ClientHost.machine.run .new e.2 = some ⟨false, ⟨e.1.given, none⟩⟩

/-- What holds in every state: the client in use is for the address packages are to go to. -/
structure Invariant (target : Option StdString) (s : CommunicationService) : Prop extends
    Accounted s where
  pinned : ∀ client ∈ s.udpClient, s.pinnedPeer.map Peer.ipAddress = some client.ip
  target : s.udpClient.map UdpClient.ip = target

theorem Invariant.init : Invariant none init := ⟨⟨nofun, nofun⟩, nofun, rfl⟩

/-- The packets of the client in use come last. -/
theorem packets_of_client {client : UdpClient} (h : s.udpClient = some client) :
    s.packets = (s.ended.map Prod.fst).flatMap (fun c => c.packets.map (c.ip, ·)) ++
      client.packets.map (client.ip, ·) := by
  simp [packets, clients, h]

theorem Accounted.mem {client : UdpClient} (h : Accounted s) (hclient : s.udpClient = some client) :
    Client client :=
  h.clients client (by simp [CommunicationService.clients, hclient])

/-- The client in use may be any. -/
theorem Accounted.setClient {client : UdpClient} (h : Accounted s) (hclient : Client client) :
    Accounted { s with udpClient := some client } := by
  refine ⟨fun c hc => ?_, h.ended⟩
  rcases List.mem_append.1 hc with hc | hc
  · exact h.clients c (List.mem_append_left _ hc)
  · rwa [List.mem_singleton.1 hc]

/-- A client that is destroyed has made all its calls. -/
theorem Accounted.resetClient {serviced : List Serviced} (h : Accounted s)
    (hreset : s.resetClient serviced = some s') :
    Accounted s' ∧ s'.packets = s.packets ∧ s'.udpClient = none ∧
      s'.pinnedPeer = s.pinnedPeer := by
  rw [CommunicationService.resetClient] at hreset
  split at hreset
  next hnone => exact Option.some.inj hreset ▸ ⟨h, rfl, hnone, rfl⟩
  next client hclient =>
    obtain ⟨calls, hcalls, hreset⟩ := Option.bind_eq_some_iff.1 hreset
    obtain rfl := Option.some.inj hreset
    have hended := destroy_run (h.mem hclient).consistent (h.mem hclient).located hcalls
    have hclients : ({ s with
        udpClient := none
        ended := s.ended ++ [(client, client.calls.map ClientCall.use ++ calls)] }).clients =
          s.clients := by
      simp [CommunicationService.clients, hclient]
    refine ⟨⟨by rw [hclients]; exact h.clients, fun e he => ?_⟩, ?_, rfl, rfl⟩
    · rcases List.mem_append.1 he with he | he
      · exact h.ended e he
      · rw [List.mem_singleton.1 he]
        exact hended
    · rw [packets, hclients]
      rfl

/-- A new client takes the place of the one before. -/
theorem Invariant.pinConnection {targetPeer : Peer} {hostCreated : Bool} {serviced : List Serviced}
    (h : Invariant target s) (hpin : s.pinConnection targetPeer hostCreated serviced = some s') :
    Invariant (some targetPeer.ipAddress) s' ∧ s'.packets = s.packets := by
  obtain ⟨t, ht, hpin⟩ := Option.bind_eq_some_iff.1 hpin
  obtain rfl := Option.some.inj hpin
  have haccounted : Accounted { s with pinnedPeer := some targetPeer } := ⟨h.clients, h.ended⟩
  obtain ⟨hreset, hpackets, hnone, hpinned⟩ := haccounted.resetClient ht
  have hnew : Client (UdpClient.init targetPeer.ipAddress defaultCommunicationPort hostCreated) :=
    ⟨.init _ _ _, .init _ _ _, rfl⟩
  refine ⟨⟨hreset.setClient hnew, fun client hclient => ?_, rfl⟩, ?_⟩
  · obtain rfl := Option.some.inj hclient
    exact congrArg (Option.map Peer.ipAddress) hpinned
  · -- the new client has sent nothing
    refine Eq.trans ?_ hpackets
    rw [packets_of_client (s := { t with udpClient := some _ }) rfl]
    simp [packets, clients, hnone, UdpClient.packets, UdpClient.init, EnetCall.packet?]

/-- Without a client, packages go nowhere. -/
theorem Invariant.resetClient {serviced : List Serviced} {pinnedPeer : Option Peer}
    (h : Invariant target s)
    (hreset : { s with pinnedPeer := pinnedPeer }.resetClient serviced = some s') :
    Invariant none s' ∧ s'.packets = s.packets := by
  have haccounted : Accounted { s with pinnedPeer := pinnedPeer } := ⟨h.clients, h.ended⟩
  obtain ⟨hs', hpackets, hnone, -⟩ := haccounted.resetClient hreset
  exact ⟨⟨hs', by simp [hnone], by rw [hnone]; rfl⟩, hpackets⟩

/-- A package is sent as one packet or not at all. -/
theorem Invariant.sendPackage {isReliable : Bool} {package : TypedPackage} {answers : SendAnswers}
    (h : Invariant target s)
    (hsend : s.sendPackage lib isReliable package answers = some s') :
    Invariant target s' ∧ ∃ sent, s'.packets = s.packets ++ sent ∧ sent.Sublist
      (target.bind fun ip =>
        ((package.encode lib).toOption.map (packetOf isReliable)).map (ip, ·)).toList := by
  rw [CommunicationService.sendPackage] at hsend
  split at hsend
  next client peer hclient hpeer =>
    obtain ⟨payload, hpayload, hsend⟩ := Option.bind_eq_some_iff.1 hsend
    obtain ⟨client', hclient', hsend⟩ := Option.bind_eq_some_iff.1 hsend
    obtain rfl := Option.some.inj hsend
    have hc := h.mem hclient
    have hsent := sendImpl_spec hc.consistent hclient'
    obtain ⟨hlocated, hip, hport⟩ := hc.located.sendImpl hclient'
    have hnew : Client client' := ⟨hsent.consistent, hlocated, hport.trans hc.port⟩
    have htarget : target = some client.ip := by rw [← h.target, hclient]; rfl
    refine ⟨⟨h.setClient hnew, fun c hc' => ?_, ?_⟩, ?_⟩
    · obtain rfl := Option.some.inj hc'
      rw [hip]
      exact h.pinned client hclient
    · rw [htarget]
      exact congrArg some hip
    · rw [packets_of_client (s := { s with udpClient := some client' }) rfl,
        packets_of_client hclient, hip, htarget, hpayload]
      rcases hsent.packets with hsame | hone
      · exact ⟨[], by rw [hsame, List.append_nil], List.nil_sublist _⟩
      · refine ⟨[(client.ip, packetOf isReliable payload)], ?_, List.Sublist.refl _⟩
        rw [hone, List.map_append, List.append_assoc]
        rfl
  next => exact Option.some.inj hsend ▸ ⟨h, [], (List.append_nil _).symm, List.nil_sublist _⟩

/-- Flushing sends no packet. -/
theorem Invariant.update (h : Invariant target s) (polled : List (EnetEventType × EnetPeerState))
    (idle : EnetPeerState) :
    Invariant target (s.update polled idle) ∧ (s.update polled idle).packets = s.packets := by
  rw [CommunicationService.update]
  cases hclient : s.udpClient with
  | none =>
    have hs : { s with udpClient := none } = s := by rw [← hclient]
    exact hs.symm ▸ ⟨h, rfl⟩
  | some client =>
    have hc := h.mem hclient
    obtain ⟨hlocated, hip, hport⟩ := hc.located.flushPendingMessages polled idle
    obtain ⟨hconsistent, -, hpackets⟩ :=
      step_spec (l := .flushPendingMessages polled idle) hc.consistent rfl
    have hpackets : (client.flushPendingMessages polled idle).packets = client.packets :=
      hpackets.resolve_right fun ⟨_, hnone, _⟩ => by cases hnone
    refine ⟨⟨h.setClient ⟨hconsistent, hlocated, hport.trans hc.port⟩, fun c hc' => ?_, ?_⟩, ?_⟩
    · obtain rfl := Option.some.inj hc'
      rw [hip]
      exact h.pinned client hclient
    · rw [← h.target, hclient]
      exact congrArg some hip
    · show ({ s with udpClient := some (client.flushPendingMessages polled idle) } :
        CommunicationService).packets = s.packets
      rw [packets_of_client (s := { s with udpClient := some _ }) rfl, packets_of_client hclient,
        hip, hpackets]

/-- What one call sends was asked for by it. -/
theorem Invariant.step {l : Step} (h : Invariant target s) (hstep : step lib s l = some s') :
    Invariant (targetAfter target l) s' ∧ ∃ sent, s'.packets = s.packets ++ sent ∧
      sent.Sublist (target.bind fun ip => (request? lib l).map (ip, ·)).toList := by
  have hnothing : ∀ {target'}, Invariant target' s' ∧ s'.packets = s.packets →
      Invariant target' s' ∧ ∃ sent, s'.packets = s.packets ++ sent ∧
        sent.Sublist (target.bind fun ip => (request? lib l).map (ip, ·)).toList :=
    fun hs' => ⟨hs'.1, [], hs'.2.trans (List.append_nil _).symm, List.nil_sublist _⟩
  cases l with
  | pinConnection targetPeer hostCreated serviced => exact hnothing (h.pinConnection hstep)
  | unpinConnection serviced => exact hnothing (h.resetClient hstep)
  | sendPackageReliable package answers => exact h.sendPackage hstep
  | sendPackageUnreliable package answers => exact h.sendPackage hstep
  | update polled idle => exact hnothing (Option.some.inj hstep ▸ h.update polled idle)
  | cleanup serviced => exact hnothing (h.resetClient hstep)

/-- What a run sends was asked for in it. -/
theorem Invariant.run {ls : List Step} (h : Invariant target s)
    (hrun : (machine lib).run s ls = some s') : (∃ target', Invariant target' s') ∧
      ∃ sent, s'.packets = s.packets ++ sent ∧ sent.Sublist (requests lib target ls) := by
  induction ls generalizing s target with
  | nil =>
    obtain rfl := Option.some.inj hrun
    exact ⟨⟨target, h⟩, [], (List.append_nil _).symm, List.nil_sublist _⟩
  | cons l ls ih =>
    obtain ⟨t, ht, hrun⟩ := Option.bind_eq_some_iff.1 hrun
    obtain ⟨hInv, sent, hsent, hsub⟩ := h.step ht
    obtain ⟨hlast, later, hlater, hsub'⟩ := ih hInv hrun
    refine ⟨hlast, sent ++ later, ?_, hsub.append hsub'⟩
    rw [hlater, hsent, List.append_assoc]

end CommunicationService

open CommunicationService in
/-- The clients of a service, in every run and whatever ENet answers. What each client that was
destroyed did with ENet is an allowed use that ends without a host or a peer: each host it
created was destroyed once, after the peer was reset. The client in use keeps to it so far, and
is for the address that is pinned. No client connected to an address other than its own, or to a
port other than 8801. -/
theorem service_clients {lib : Nlohmann} {ls : List Step} {s : CommunicationService}
    (h : (machine lib).run init ls = some s) :
    (∀ e ∈ s.ended, ClientHost.machine.run .new e.2 = some ⟨false, ⟨e.1.given, none⟩⟩ ∧
      e.2.count .hostDestroy = e.2.count (.use (.hostCreate true))) ∧
    (∀ client ∈ s.udpClient, s.pinnedPeer.map Peer.ipAddress = some client.ip ∧
      ClientHost.machine.run .new (client.calls.map .use) =
        some ⟨client.host, ⟨client.given, client.peer.map fun p => (p, client.peerState)⟩⟩) ∧
    ∀ client ∈ s.clients, ∀ ip port peer, .hostConnect ip port peer ∈ client.calls →
      ip = client.ip ∧ port = 8801 := by
  obtain ⟨⟨target, hs⟩, -⟩ := Invariant.init.run h
  refine ⟨fun e he => ⟨hs.ended e he, ?_⟩, fun client hclient => ⟨hs.pinned client hclient, ?_⟩, ?_⟩
  · exact ClientHost.count_hostDestroy (hs.ended e he)
  · exact UdpClient.clientHost_uses (hs.mem hclient).consistent (hs.mem hclient).located
  · intro client hclient ip port peer hmem
    have hc := hs.clients client hclient
    obtain ⟨hip, hport⟩ := hc.located.connects ip port peer hmem
    rw [hc.port] at hport
    exact ⟨hip, hport⟩

open CommunicationService in
/-- What the clients of a service hand to ENet, in every run and whatever ENet answers: the packets
it was asked to send while a device was pinned, each at most once, in their order, and each by a
client for the device that was pinned then. -/
theorem service_packets {lib : Nlohmann} {ls : List Step} {s : CommunicationService}
    (h : (machine lib).run init ls = some s) : s.packets.Sublist (requests lib none ls) := by
  obtain ⟨-, sent, hsent, hsub⟩ := Invariant.init.run h
  rw [hsent]
  exact hsub

namespace CommunicationService

/-- A package of a type, without a payload. -/
def examplePackage (typename : String) : TypedPackage := ⟨.ofString typename, [], default⟩

/-- The first device answers, and confirms the disconnect. -/
def disconnects : List Serviced := [⟨none, .disconnecting⟩, ⟨some .disconnect, .disconnected⟩]

/-- A package comes before anything is pinned, one goes to a device, and one to the next device,
which refuses the connection. -/
def repinning : List Step :=
  [.sendPackageReliable (examplePackage "a") (UdpClient.connects 1000),
    .pinConnection ⟨.ofString "10.0.0.2"⟩ true [],
    .sendPackageReliable (examplePackage "b") (UdpClient.connects 1000),
    .pinConnection ⟨.ofString "10.0.0.3"⟩ true disconnects,
    .sendPackageUnreliable (examplePackage "c")
      { UdpClient.connects 2000 with connecting := [⟨some .disconnect, .disconnected⟩] },
    .unpinConnection []]

end CommunicationService

open CommunicationService in
/-- In this run both clients are gone at the end, and one of them had reset its peer before. -/
theorem service_clients_repinning : ∃ s, (machine JsonText.nlohmann).run init repinning = some s ∧
    s.ended.map (fun e => (e.1.peer, e.2.count (.use (.hostCreate true)))) =
      [(some 0, 1), (none, 1)] ∧
    ∀ e ∈ s.ended, e.2.count .hostDestroy = e.2.count (.use (.hostCreate true)) := by
  have hrun : ∃ s ∈ (machine JsonText.nlohmann).run init repinning,
      s.ended.map (fun e => (e.1.peer, e.2.count (.use (.hostCreate true)))) =
        [(some 0, 1), (none, 1)] := by
    decide +kernel
  obtain ⟨s, hs, hended⟩ := hrun
  exact ⟨s, hs, hended, fun e he => ((service_clients hs).1 e he).2⟩

open CommunicationService in
/-- In this run the second package is the only one that is sent. -/
theorem service_packets_repinning : ∃ s, (machine JsonText.nlohmann).run init repinning = some s ∧
    s.packets.map Prod.fst = [.ofString "10.0.0.2"] ∧
    (requests JsonText.nlohmann none repinning).map Prod.fst =
      [.ofString "10.0.0.2", .ofString "10.0.0.3"] ∧
    s.packets.Sublist (requests JsonText.nlohmann none repinning) := by
  have hrun : ∃ s ∈ (machine JsonText.nlohmann).run init repinning,
      s.packets.map Prod.fst = [.ofString "10.0.0.2"] ∧
      (requests JsonText.nlohmann none repinning).map Prod.fst =
        [.ofString "10.0.0.2", .ofString "10.0.0.3"] := by
    decide +kernel
  obtain ⟨s, hs, hpackets, hrequests⟩ := hrun
  exact ⟨s, hs, hpackets, hrequests, service_packets hs⟩

end Keyleport
