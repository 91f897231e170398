import Keyleport.Discovery.Peer
import Keyleport.Lib.Machine
import Keyleport.Networking.Message

/-!
# The discovery service

`services/discovery/discovery_service.cpp`. The known peers and the times they were last seen
are two parallel vectors, edited by an in-place update, an append, an erasure by index and a
lockstep erasure of stale entries. Every reading of the clock is an argument of the operation
that takes it, so nothing is assumed about the clock; differences of readings wrap around as
unsigned integers do.
-/

namespace Keyleport

/-- `discovery_service`, with the store's list of devices and what was broadcast. -/
structure DiscoveryService where
  discoveredPeers : List DiscoveryPeer
  peerLastSeenTimestamps : List UInt64
  selfPeer : DiscoveryPeer
  /-- Whether `broadcast_client_` is set. -/
  broadcastClient : Bool
  /-- Whether `broadcast_server_` is set. -/
  broadcastServer : Bool
  lastBroadcastTimeMs : UInt64
  /-- `store::connection_state().available_devices`. -/
  availableDevices : List ConnectionCandidate
  /-- The payloads handed to `broadcast_client_->broadcast`, oldest first. -/
  broadcasts : List StdString
deriving DecidableEq, Repr

/-- The clock readings of one message: `now` of `update_peer_state`, of the `remove_stale_peers`
it ends with, and of `broadcast_own_state`. -/
structure MessageClock where
  seen : UInt64
  stale : UInt64
  broadcast : UInt64
deriving DecidableEq, Repr

namespace DiscoveryService

/-- `state_broadcast_interval_ms_`. -/
def stateBroadcastIntervalMs : UInt64 := 5000

/-- `peer_stale_timeout_ms_`. -/
def peerStaleTimeoutMs : UInt64 := 15000

/-- `self_ip_address_`. -/
def selfIpAddress : StdString := .ofString "127.0.0.1"

/-- `std::to_string(default_peer_port_)`. -/
def defaultPeerPort : StdString := .ofString "8800"

/-! ## Operations -/

/-- The test of `remove_stale_peers`. -/
def isStale (now t : UInt64) : Bool := now - t > peerStaleTimeoutMs

/-- The loop of `remove_stale_peers`, over both vectors in lockstep. -/
def removeStaleLoop (now : UInt64) :
    List DiscoveryPeer → List UInt64 → List DiscoveryPeer × List UInt64
  | p :: peers, t :: timestamps =>
      let (peers', timestamps') := removeStaleLoop now peers timestamps
      if isStale now t then (peers', timestamps') else (p :: peers', t :: timestamps')
  | peers, timestamps => (peers, timestamps)

/-- `remove_stale_peers`. -/
def removeStalePeers (s : DiscoveryService) (now : UInt64) : DiscoveryService :=
  let (peers, timestamps) := removeStaleLoop now s.discoveredPeers s.peerLastSeenTimestamps
  { s with discoveredPeers := peers, peerLastSeenTimestamps := timestamps }

/-- `remove_peer_by_device_id`. -/
def removePeerByDeviceId (s : DiscoveryService) (deviceId : StdString) :
    Bool × DiscoveryService :=
  match s.discoveredPeers.findIdx? fun p => p.deviceId = deviceId with
  | none => (false, s)
  | some index =>
      let timestamps := s.peerLastSeenTimestamps
      (true, { s with
        discoveredPeers := s.discoveredPeers.eraseIdx index
        peerLastSeenTimestamps :=
          if index < timestamps.length then timestamps.eraseIdx index else timestamps })

/-- `update_peer_state`. -/
def updatePeerState (s : DiscoveryService) (peer : DiscoveryPeer) (now stale : UInt64) :
    Bool × DiscoveryService :=
  match s.discoveredPeers.findIdx? fun p => p.deviceId = peer.deviceId with
  | some index =>
      -- a known peer is updated in place
      let timestamps := s.peerLastSeenTimestamps
      let s := { s with
        discoveredPeers := s.discoveredPeers.set index peer
        peerLastSeenTimestamps :=
          if index < timestamps.length then timestamps.set index now else timestamps }
      (false, s.removeStalePeers stale)
  | none =>
      -- a new peer is appended
      let s := { s with
        discoveredPeers := s.discoveredPeers ++ [peer]
        peerLastSeenTimestamps := s.peerLastSeenTimestamps ++ [now] }
      (true, s.removeStalePeers stale)

/-- `broadcast_own_state`. -/
def broadcastOwnState (lib : Nlohmann) (s : DiscoveryService) (force : Bool) (now : UInt64) :
    Except TypeError DiscoveryService :=
  let shouldBroadcast := force || s.lastBroadcastTimeMs = 0 ||
    now - s.lastBroadcastTimeMs > stateBroadcastIntervalMs
  if shouldBroadcast && s.broadcastClient then do
    let payload ← s.selfPeer.encode lib
    return { s with lastBroadcastTimeMs := now, broadcasts := s.broadcasts ++ [payload] }
  else .ok s

/-- `update_connection_candidates`. -/
def updateConnectionCandidates (s : DiscoveryService) : DiscoveryService :=
  let peers := s.discoveredPeers.filter fun p => p.ipAddress ≠ selfIpAddress
  { s with availableDevices := peers.map fun p =>
      ⟨p.state = .busy, p.deviceName, p.ipAddress, defaultPeerPort⟩ }

/-- The self filter of the `on_message` callback. -/
def isSelf (selfId : StdString) (peer : DiscoveryPeer) : Bool :=
  peer.ipAddress = selfIpAddress ∨ peer.deviceId = selfId

/-- The `on_message` callback of `init`, after the peer is decoded. -/
def onPeer (lib : Nlohmann) (s : DiscoveryService) (peer : DiscoveryPeer) (clock : MessageClock) :
    Except TypeError DiscoveryService :=
  if isSelf s.selfPeer.deviceId peer then .ok s
  else if peer.state = .gone then
    -- a peer that says it has gone is removed at once
    let (removed, s) := s.removePeerByDeviceId peer.deviceId
    .ok (if removed then s.updateConnectionCandidates else s)
  else
    let (isNew, s) := s.updatePeerState peer clock.seen clock.stale
    let s := s.updateConnectionCandidates
    -- the first message of a peer is answered without waiting for the interval
    if isNew then s.broadcastOwnState lib true clock.broadcast else .ok s

/-- The `on_message` callback of `init`: the address of a peer is that of the datagram. -/
def onMessage (lib : Nlohmann) (s : DiscoveryService) (msg : Message) (clock : MessageClock) :
    Except TypeError DiscoveryService := do
  let peer ← DiscoveryPeer.decode lib msg.payload
  s.onPeer lib { peer with ipAddress := msg.sender.ipAddress } clock

/-- `init`, with what `get_random_id`, `get_device_name` and `get_platform` return. -/
def init (lib : Nlohmann) (deviceId deviceName platform : StdString) (first second : UInt64) :
    Except TypeError DiscoveryService := do
  let s : DiscoveryService := {
    discoveredPeers := []
    peerLastSeenTimestamps := []
    selfPeer := ⟨deviceId, deviceName, selfIpAddress, platform, .idle⟩
    broadcastClient := true
    broadcastServer := true
    lastBroadcastTimeMs := 0
    availableDevices := []
    broadcasts := [] }
  -- a burst of two, as a broadcast may be lost
  let s ← s.broadcastOwnState lib true first
  s.broadcastOwnState lib true second

/-- `update`, after the datagrams of `poll_events`. -/
def update (lib : Nlohmann) (s : DiscoveryService) (broadcast stale : UInt64) :
    Except TypeError DiscoveryService := do
  let s ← s.broadcastOwnState lib false broadcast
  return (s.removeStalePeers stale).updateConnectionCandidates

/-- `cleanup`. -/
def cleanup (lib : Nlohmann) (s : DiscoveryService) (now : UInt64) :
    Except TypeError DiscoveryService := do
  -- the others are told to forget this device
  let s ←
    if s.broadcastClient then
      broadcastOwnState lib { s with selfPeer := { s.selfPeer with state := .gone } } true now
    else .ok s
  return { s with
    broadcastServer := false
    broadcastClient := false
    discoveredPeers := []
    peerLastSeenTimestamps := []
    lastBroadcastTimeMs := 0 }

/-! ## The machine -/

/-- The steps of a service after `init`. -/
inductive Step where
  /-- A datagram taken by `poll_events`. -/
  | message (msg : Message) (clock : MessageClock)
  /-- The rest of an `update`. -/
  | update (broadcast stale : UInt64)
  | cleanup (now : UInt64)

/-- One step. A datagram needs a server; a step that throws ends the run. -/
def step (lib : Nlohmann) (s : DiscoveryService) : Step → Option DiscoveryService
  | .message msg clock =>
      if s.broadcastServer then (s.onMessage lib msg clock).toOption else none
  | .update broadcast stale => (s.update lib broadcast stale).toOption
  | .cleanup now => (s.cleanup lib now).toOption

/-- The service as a machine. -/
def machine (lib : Nlohmann) : Machine DiscoveryService Step := ⟨step lib⟩

end DiscoveryService

end Keyleport
