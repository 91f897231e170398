import Keyleport.Networking.Enet
import Keyleport.Networking.Message

/-!
# The UDP client

`networking/p2p/udp_client.cpp`: a client that keeps at most one connection, polls it for a
disconnect before every send and connects again at most once a second. Its functions take the
answers of ENet and the readings of the clock as arguments and append every call they make to
the calls of the client. They hold a lock, so calls of the client do not interleave.
-/

namespace Keyleport

/-- `p2p::udp_client`, with the calls it has made. -/
structure UdpClient where
  /-- `config_.get_peer().get_ip_address()`. -/
  ip : StdString
  /-- `config_.get_port()`. -/
  port : Int32
  /-- Whether `host_` is set. -/
  host : Bool
  /-- `peer_`. -/
  peer : Option ℕ
  lastConnectAttemptMs : UInt64
  /-- `state` of the peer given last, as ENet left it. -/
  peerState : EnetPeerState
  /-- How many peers `enet_host_connect` has given. -/
  given : ℕ
  /-- The calls made, oldest first. -/
  calls : List EnetCall
deriving DecidableEq, Repr

/-- An answer of `enet_host_service`: the event it reports, if any, and the state of the peer. -/
structure Serviced where
  event : Option EnetEventType
  state : EnetPeerState
deriving DecidableEq, Repr

/-- The answers of ENet and of the clock to one send. -/
structure SendAnswers where
  /-- Whether `enet_host_create` gives a host. -/
  hostCreated : Bool
  /-- The events that are pending when the send polls, each with the state of the peer. -/
  polled : List (EnetEventType × EnetPeerState)
  /-- The state of the peer when no event is pending any more. -/
  idle : EnetPeerState
  now : UInt64
  /-- Whether `enet_address_set_host` succeeds. -/
  resolved : Bool
  /-- Whether `enet_host_connect` gives a peer. -/
  slot : Bool
  /-- The answers of `enet_host_service` while the client waits for the connection. -/
  connecting : List Serviced
  /-- Whether `enet_packet_create` gives a packet. -/
  packetCreated : Bool
  /-- Whether `enet_peer_send` accepts the packet. -/
  accepted : Bool
deriving DecidableEq, Repr

namespace UdpClient

/-- `reconnect_interval_ms_`. -/
def reconnectIntervalMs : Int64 := 1000

/-- `connect_timeout_ms_`. -/
def connectTimeoutMs : ℕ := 500

/-- `kChannelUnreliable`. -/
def kChannelUnreliable : UInt8 := 0

/-- `kChannelReliable`. -/
def kChannelReliable : UInt8 := 1

/-- The constructor, with whether `enet_host_create` gives a host. -/
def init (ip : StdString) (port : Int32) (hostCreated : Bool) : UdpClient :=
  ⟨ip, port, hostCreated, none, 0, .disconnected, 0, [.hostCreate hostCreated]⟩

/-! ## Calls -/

/-- A call that changes nothing in the client. -/
def call (s : UdpClient) (c : EnetCall) : UdpClient := { s with calls := s.calls ++ [c] }

/-- A call of `enet_host_service`. -/
def hostService (s : UdpClient) (r : Serviced) : UdpClient :=
  { s with peerState := r.state, calls := s.calls ++ [.hostService r.event r.state] }

/-- `last_connect_attempt_ms_ = now`, which starts an attempt to connect. -/
def startAttempt (s : UdpClient) (now : UInt64) : UdpClient :=
  { s with lastConnectAttemptMs := now, calls := s.calls ++ [.attempt now] }

/-- A call of `enet_host_connect` that gives a peer. -/
def hostConnect (s : UdpClient) (port : UInt16) : UdpClient :=
  { s with
    peerState := .connecting
    given := s.given + 1
    calls := s.calls ++ [.hostConnect s.ip port (some s.given)] }

/-- `if (peer_) { enet_peer_reset(peer_); peer_ = nullptr; }`. -/
def resetPeer (s : UdpClient) : UdpClient :=
  match s.peer with
  | some p => { s with peer := none, calls := s.calls ++ [.peerReset p] }
  | none => s

/-! ## Operations -/

/-- The loop of `connect_peer`, which returns the peer if the connection is reported within the
timeout. Without an outcome if ENet has no answer left. -/
def connectLoop (peer timeoutMs : ℕ) :
    ℕ → UdpClient → List Serviced → Option (Option ℕ × UdpClient)
  | elapsed, s, [] =>
      if elapsed < timeoutMs then none else some (none, s.call (.peerReset peer))
  | elapsed, s, r :: rs =>
      if elapsed < timeoutMs then
        let s := s.hostService r
        if r.event = some .connect then some (some peer, s)
        else if r.event = some .disconnect then some (none, s.call (.peerReset peer))
        else connectLoop peer timeoutMs (elapsed + 50) s rs
      else some (none, s.call (.peerReset peer))

/-- `connect_peer`. -/
def connectPeer (s : UdpClient) (answers : SendAnswers) : Option (Option ℕ × UdpClient) :=
  if !s.host || s.ip = [] || s.port ≤ 0 then some (none, s)
  else if !answers.resolved then some (none, s)
  else
    -- `address.port` is an `enet_uint16`
    let port := s.port.toUInt32.toUInt16
    if !answers.slot then some (none, s.call (.hostConnect s.ip port none))
    else
      connectLoop s.given connectTimeoutMs 0 (s.hostConnect port) answers.connecting

/-- Whether it is too soon to try again: the difference of the readings is unsigned and cast. -/
def tooSoon (s : UdpClient) (now : UInt64) : Bool :=
  s.lastConnectAttemptMs ≠ 0 && (now - s.lastConnectAttemptMs).toInt64 < reconnectIntervalMs

/-- The end of `ensure_connected`, with the peer that `connect_peer` returned. -/
def adoptPeer (s : UdpClient) (peer : Option ℕ) : Bool × UdpClient :=
  let s := { s with peer := peer }
  match peer with
  | none => (false, s)
  | some p =>
      let s := s.call (.readState p)
      if s.peerState = .connected then (true, s)
      -- the state is read again, and the peer given up
      else (false, (s.call (.readState p)).resetPeer)

/-- `ensure_connected`, from the reading of the clock on. -/
def tryConnect (s : UdpClient) (answers : SendAnswers) : Option (Bool × UdpClient) :=
  let s := s.call (.nowMs answers.now)
  if s.tooSoon answers.now then some (false, s)
  else
    let s := s.startAttempt answers.now
    if s.ip = [] || s.port ≤ 0 then some (false, s)
    else do
      let (peer, s) ← s.connectPeer answers
      return s.adoptPeer peer

/-- `ensure_connected`. -/
def ensureConnected (s : UdpClient) (answers : SendAnswers) : Option (Bool × UdpClient) :=
  match s.peer with
  | some p =>
      let s := s.call (.readState p)
      if s.peerState = .connected then some (true, s)
      else tryConnect (s.call (.readState p)).resetPeer answers
  | none => tryConnect s answers

/-- The polling loop of `send_impl`, over the pending events. -/
def pollLoop (s : UdpClient) : List (EnetEventType × EnetPeerState) → UdpClient
  | [] => s
  | (event, state) :: polled =>
      let s := s.hostService ⟨some event, state⟩
      pollLoop (if event = .disconnect then s.resetPeer else s) polled

/-- The start of `send_impl`, which creates a host if there is none. -/
def ensureHost (s : UdpClient) (created : Bool) : UdpClient :=
  if s.host then s else { s with host := created, calls := s.calls ++ [.hostCreate created] }

/-- The end of `send_impl`, once the client is connected. -/
def sendPacket (s : UdpClient) (payload : StdString) (isReliable : Bool) (answers : SendAnswers) :
    UdpClient :=
  let flag := if isReliable then .reliable else .unreliableFragment
  if !answers.packetCreated then s
  else
    let channel := if isReliable then kChannelReliable else kChannelUnreliable
    let s := s.call (.peerSend s.peer channel flag payload)
    if !answers.accepted then s.call .packetDestroy else s.call .hostFlush

/-- `send_impl`. -/
def sendImpl (s : UdpClient) (msg : Message) (isReliable : Bool) (answers : SendAnswers) :
    Option UdpClient :=
  let payload := msg.payload
  if payload = [] then some s
  else
    let s := s.ensureHost answers.hostCreated
    if !s.host then some s
    else do
      -- poll for a disconnect before the peer is used
      let s := (s.pollLoop answers.polled).hostService ⟨none, answers.idle⟩
      let (connected, s) ← s.ensureConnected answers
      return if connected then s.sendPacket payload isReliable answers else s

/-- `send_reliable`. -/
def sendReliable (s : UdpClient) (msg : Message) (answers : SendAnswers) : Option UdpClient :=
  s.sendImpl msg true answers

/-- `send_unreliable`. -/
def sendUnreliable (s : UdpClient) (msg : Message) (answers : SendAnswers) : Option UdpClient :=
  s.sendImpl msg false answers

/-- The loop of `flush_service_events`, with its budget and the pending events. -/
def flushLoop : ℕ → UdpClient → List (EnetEventType × EnetPeerState) → EnetPeerState → UdpClient
  | 0, s, _, _ => s
  | _ + 1, s, [], idle => s.hostService ⟨none, idle⟩
  | budget + 1, s, (event, state) :: polled, idle =>
      let s := s.hostService ⟨some event, state⟩
      flushLoop budget (if event = .disconnect then s.resetPeer else s) polled idle

/-- `flush_service_events`. -/
def flushServiceEvents (s : UdpClient) (polled : List (EnetEventType × EnetPeerState))
    (idle : EnetPeerState) : UdpClient :=
  flushLoop 16 s polled idle

/-- `flush_pending_messages`, with the pending events and the state after them. -/
def flushPendingMessages (s : UdpClient) (polled : List (EnetEventType × EnetPeerState))
    (idle : EnetPeerState) : UdpClient :=
  if !s.host then s else (s.flushServiceEvents polled idle).call .hostFlush

/-! ## The machine -/

/-- The calls of a client. -/
inductive Step where
  | sendReliable (msg : Message) (answers : SendAnswers)
  | sendUnreliable (msg : Message) (answers : SendAnswers)
  | flushPendingMessages (polled : List (EnetEventType × EnetPeerState)) (idle : EnetPeerState)
deriving DecidableEq, Repr

/-- One call. -/
def step (s : UdpClient) : Step → Option UdpClient
  | .sendReliable msg answers => s.sendReliable msg answers
  | .sendUnreliable msg answers => s.sendUnreliable msg answers
  | .flushPendingMessages polled idle => some (s.flushPendingMessages polled idle)

/-- The client as a machine. -/
def machine : Machine UdpClient Step := ⟨step⟩

end UdpClient

end Keyleport
