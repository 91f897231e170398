import Keyleport.Discovery.Service
import Keyleport.Lib.Json.Text
import Keyleport.Lib.Lockstep
import Keyleport.Lib.TimedTable
import Mathlib.Data.List.InsertIdx
import Mathlib.Data.Option.Basic

/-!
# The table of known peers

The two vectors of the discovery service are the two columns of one table with an entry for each
device id, and its four operations are the upsertion, removal and expiry of that table. An entry
is the latest message of its device.

* `DiscoveryService.Represents`: the vectors are the columns of a table.
* `DiscoveryService.onPeer_cases`: what handling a peer can do.
* `DiscoveryService.onPeer_gone`, `DiscoveryService.onPeer_seen`, `DiscoveryService.update_spec`,
  `DiscoveryService.cleanup_spec`: what the operations do to the table and to the rest of the
  state.
* `DiscoveryService.Says`: what a step that is no cleanup broadcasts.
* `discovery_table_invariant`: the columns stay paired, and each entry and its time come from the
  latest accepted message of the device.
-/

namespace Keyleport

namespace DiscoveryService

variable {lib : Nlohmann} {s s' : DiscoveryService}

/-- On a clock that has not stepped backward, a time is fresh up to the timeout. -/
theorem isStale_eq_false_iff {now t : UInt64} (h : t ≤ now) :
    isStale now t = false ↔ now.toNat ≤ t.toNat + peerStaleTimeoutMs.toNat := by
  have hsub : (now - t).toNat = now.toNat - t.toNat := UInt64.toNat_sub_of_le _ _ h
  rw [isStale, decide_eq_false_iff_not, gt_iff_lt, UInt64.lt_iff_toNat_lt, hsub]
  omega

/-! ## Columns -/

/-- The known peers by device id, with the times they were last seen. -/
abbrev PeerTable := TimedTable DiscoveryPeer.deviceId UInt64

/-- The two vectors are the columns of the table. -/
def Represents (table : PeerTable) (s : DiscoveryService) : Prop :=
  s.discoveredPeers = table.entries.map Prod.fst ∧
    s.peerLastSeenTimestamps = table.entries.map Prod.snd

/-- The recursion keeps what the loop on iterators keeps. -/
theorem removeStaleLoop_eq_erase (now : UInt64) (peers : List DiscoveryPeer)
    (timestamps : List UInt64) :
    removeStaleLoop now peers timestamps = Lockstep.erase (isStale now) peers timestamps := by
  rw [Lockstep.erase_eq]
  induction peers generalizing timestamps with
  | nil => simp [removeStaleLoop, Lockstep.kept]
  | cons p peers ih =>
    cases timestamps with
    | nil => simp [removeStaleLoop, Lockstep.kept]
    | cons t timestamps =>
      have hmin : min (p :: peers).length (t :: timestamps).length =
          min peers.length timestamps.length + 1 := by
        simp only [List.length_cons]
        omega
      rw [removeStaleLoop, ih, hmin]
      cases ht : isStale now t <;> simp [Lockstep.kept, ht]

/-- Over the columns of a table the loop keeps the entries that are not stale. -/
theorem removeStaleLoop_map (now : UInt64) (es : List (DiscoveryPeer × UInt64)) :
    removeStaleLoop now (es.map Prod.fst) (es.map Prod.snd) =
      ((es.filter fun e => !isStale now e.2).map Prod.fst,
        (es.filter fun e => !isStale now e.2).map Prod.snd) := by
  have hkept : Lockstep.kept (isStale now) (es.map Prod.fst) (es.map Prod.snd) =
      es.filter fun e => !isStale now e.2 := by
    rw [Lockstep.kept, List.zip_map']
    exact congrArg _ (List.map_id _)
  -- the columns have one length, so there is no rest
  rw [removeStaleLoop_eq_erase, Lockstep.erase_eq, hkept, List.length_map, List.length_map,
    Nat.min_self, List.drop_of_length_le (List.length_map _).le,
    List.drop_of_length_le (List.length_map _).le, List.append_nil, List.append_nil]

/-- The lockstep loop expires the stale entries. -/
theorem Represents.removeStalePeers {table : PeerTable} (h : Represents table s) (now : UInt64) :
    Represents (table.expire (isStale now)) (s.removeStalePeers now) := by
  rw [Represents, DiscoveryService.removeStalePeers, h.1, h.2, removeStaleLoop_map]
  exact ⟨rfl, rfl⟩

/-- Searching the first column is searching the table. -/
private theorem findIdx?_fst (es : List (DiscoveryPeer × UInt64)) (deviceId : StdString) :
    ((es.map Prod.fst).findIdx? fun p => p.deviceId = deviceId) =
      es.findIdx? fun e => e.1.deviceId = deviceId := by
  rw [List.findIdx?_map]
  rfl

/-- An index found in the table is below its length. -/
private theorem lt_length_of_findIdx? {α : Type} {p : α → Bool} {es : List α} {i : ℕ}
    (h : es.findIdx? p = some i) : i < es.length :=
  (List.findIdx?_eq_some_iff_findIdx_eq.1 h).1

/-- A search fails exactly when the table has no such key. -/
private theorem findIdx?_eq_none (table : PeerTable) (deviceId : StdString) :
    (table.entries.findIdx? fun e => e.1.deviceId = deviceId) = none ↔
      ¬ table.HasKey deviceId := by
  simp [List.findIdx?_eq_none_iff, TimedTable.HasKey]

/-- Erasing by index removes the key from the table. -/
theorem Represents.removePeerByDeviceId {table : PeerTable} (h : Represents table s)
    (deviceId : StdString) :
    Represents (table.remove deviceId) (s.removePeerByDeviceId deviceId).2 := by
  have hremove : (table.remove deviceId).entries =
      table.entries.eraseP fun e => e.1.deviceId = deviceId := rfl
  rw [DiscoveryService.removePeerByDeviceId, h.1, h.2, findIdx?_fst, Represents, hremove,
    List.eraseP_eq_eraseIdx]
  cases hfind : table.entries.findIdx? fun e => e.1.deviceId = deviceId with
  | none => exact h
  | some i =>
    -- the columns have one length, so the test of the index always passes
    have hi : i < (table.entries.map Prod.snd).length := by
      rw [List.length_map]
      exact lt_length_of_findIdx? hfind
    simp only [if_pos hi]
    exact ⟨List.eraseIdx_map _ _ _, List.eraseIdx_map _ _ _⟩

/-- `update_peer_state`, up to the `remove_stale_peers` it ends with. -/
def recordPeer (s : DiscoveryService) (peer : DiscoveryPeer) (now : UInt64) : DiscoveryService :=
  match s.discoveredPeers.findIdx? fun p => p.deviceId = peer.deviceId with
  | some index =>
      let timestamps := s.peerLastSeenTimestamps
      { s with
        discoveredPeers := s.discoveredPeers.set index peer
        peerLastSeenTimestamps :=
          if index < timestamps.length then timestamps.set index now else timestamps }
  | none => { s with
      discoveredPeers := s.discoveredPeers ++ [peer]
      peerLastSeenTimestamps := s.peerLastSeenTimestamps ++ [now] }

theorem updatePeerState_eq (s : DiscoveryService) (peer : DiscoveryPeer) (now stale : UInt64) :
    (s.updatePeerState peer now stale).2 = (s.recordPeer peer now).removeStalePeers stale := by
  rw [updatePeerState, recordPeer]
  cases s.discoveredPeers.findIdx? fun p => p.deviceId = peer.deviceId with
  | none => rfl
  | some index => rfl

/-- The in-place update and the append upsert the table. -/
theorem Represents.recordPeer {table : PeerTable} (h : Represents table s)
    (peer : DiscoveryPeer) (now : UInt64) :
    Represents (table.upsert peer now) (s.recordPeer peer now) := by
  have hupsert : (table.upsert peer now).entries =
      TimedTable.upsertEntries DiscoveryPeer.deviceId peer now table.entries := rfl
  rw [DiscoveryService.recordPeer, h.1, h.2, findIdx?_fst]
  rw [TimedTable.upsertEntries_eq] at hupsert
  cases hfind : table.entries.findIdx? fun e => e.1.deviceId = peer.deviceId with
  | none =>
    -- both vectors are appended to
    rw [hfind] at hupsert
    rw [Represents, hupsert, List.map_append, List.map_append]
    exact ⟨rfl, rfl⟩
  | some i =>
    -- both vectors are written at the same index
    rw [hfind] at hupsert
    have hi : i < (table.entries.map Prod.snd).length := by
      rw [List.length_map]
      exact lt_length_of_findIdx? hfind
    simp only [Represents, hupsert, if_pos hi, List.map_set, and_self]

/-- The table is upserted, and then expires. -/
theorem Represents.updatePeerState {table : PeerTable} (h : Represents table s)
    (peer : DiscoveryPeer) (now stale : UInt64) :
    Represents ((table.upsert peer now).expire (isStale stale))
      (s.updatePeerState peer now stale).2 := by
  rw [updatePeerState_eq]
  exact (h.recordPeer peer now).removeStalePeers stale

/-- A peer is new exactly when its device id is not in the table. -/
theorem Represents.isNew_iff {table : PeerTable} (h : Represents table s) (peer : DiscoveryPeer)
    (now stale : UInt64) :
    (s.updatePeerState peer now stale).1 = true ↔ ¬ table.HasKey peer.deviceId := by
  rw [← findIdx?_eq_none, DiscoveryService.updatePeerState, h.1, findIdx?_fst]
  cases table.entries.findIdx? fun e => e.1.deviceId = peer.deviceId <;> simp

/-! ## Broadcasts -/

/-- The fields that say who the device is and whether it is running. -/
structure SameSelf (s s' : DiscoveryService) : Prop where
  selfPeer : s'.selfPeer = s.selfPeer
  broadcastClient : s'.broadcastClient = s.broadcastClient
  broadcastServer : s'.broadcastServer = s.broadcastServer

theorem SameSelf.refl (s : DiscoveryService) : SameSelf s s := ⟨rfl, rfl, rfl⟩

theorem SameSelf.trans {t : DiscoveryService} (h : SameSelf s t) (h' : SameSelf t s') :
    SameSelf s s' :=
  ⟨h'.selfPeer.trans h.selfPeer, h'.broadcastClient.trans h.broadcastClient,
    h'.broadcastServer.trans h.broadcastServer⟩

theorem sameSelf_removePeerByDeviceId (s : DiscoveryService) (deviceId : StdString) :
    SameSelf s (s.removePeerByDeviceId deviceId).2 := by
  rw [removePeerByDeviceId]
  split <;> exact ⟨rfl, rfl, rfl⟩

theorem sameSelf_updatePeerState (s : DiscoveryService) (peer : DiscoveryPeer)
    (now stale : UInt64) : SameSelf s (s.updatePeerState peer now stale).2 := by
  rw [updatePeerState]
  split <;> exact ⟨rfl, rfl, rfl⟩

@[simp]
theorem broadcasts_removePeerByDeviceId (s : DiscoveryService) (deviceId : StdString) :
    (s.removePeerByDeviceId deviceId).2.broadcasts = s.broadcasts := by
  rw [removePeerByDeviceId]
  split <;> rfl

@[simp]
theorem broadcasts_updatePeerState (s : DiscoveryService) (peer : DiscoveryPeer)
    (now stale : UInt64) : (s.updatePeerState peer now stale).2.broadcasts = s.broadcasts := by
  rw [updatePeerState]
  split <;> rfl

/-- The list of devices is not part of the table. -/
theorem Represents.updateConnectionCandidates {table : PeerTable} (h : Represents table s) :
    Represents table s.updateConnectionCandidates := h

/-- A broadcast changes only the time of the last one and the payloads sent. -/
theorem broadcastOwnState_eq_ok {force : Bool} {now : UInt64}
    (h : s.broadcastOwnState lib force now = .ok s') :
    ∃ time new, s' = { s with lastBroadcastTimeMs := time, broadcasts := s.broadcasts ++ new } ∧
      (new = [] ∨ ∃ payload, s.selfPeer.encode lib = .ok payload ∧ new = [payload]) ∧
      (force = true → s.broadcastClient = true → new ≠ []) := by
  simp only [broadcastOwnState] at h
  split at h
  next hshould =>
    obtain ⟨payload, hpayload, h⟩ := Except.bind_eq_ok_iff.1 h
    exact ⟨now, [payload], (Except.ok.inj h).symm, Or.inr ⟨payload, hpayload, rfl⟩, by simp⟩
  next hshould =>
    refine ⟨s.lastBroadcastTimeMs, [], ?_, Or.inl rfl, fun hforce hclient => ?_⟩
    · rw [List.append_nil]
      exact (Except.ok.inj h).symm
    · simp [hforce, hclient] at hshould

/-- A broadcast can only fail because the own state does not encode. -/
theorem broadcastOwnState_ok {payload : StdString} (h : s.selfPeer.encode lib = .ok payload)
    (force : Bool) (now : UInt64) : ∃ s', s.broadcastOwnState lib force now = .ok s' := by
  simp only [broadcastOwnState, h]
  split
  · exact ⟨_, rfl⟩
  · exact ⟨_, rfl⟩

/-! ## Operations on the table -/

/-- The peer of a datagram, with the address of the datagram, if it passes the self filter. -/
def acceptedPeer (lib : Nlohmann) (selfId : StdString) (msg : Message) : Option DiscoveryPeer :=
  match DiscoveryPeer.decode lib msg.payload with
  | .error _ => none
  | .ok peer =>
      let peer := { peer with ipAddress := msg.sender.ipAddress }
      if isSelf selfId peer then none else some peer

/-- An accepted peer is another device, under the address of the datagram. -/
theorem acceptedPeer_eq_some {selfId : StdString} {msg : Message} {peer : DiscoveryPeer}
    (h : acceptedPeer lib selfId msg = some peer) :
    peer.ipAddress = msg.sender.ipAddress ∧ peer.ipAddress ≠ selfIpAddress ∧
      peer.deviceId ≠ selfId := by
  simp only [acceptedPeer] at h
  split at h
  · cases h
  · split at h
    next => cases h
    next hself =>
      obtain rfl := Option.some.inj h
      simp only [isSelf, decide_eq_true_eq, not_or] at hself
      exact ⟨rfl, hself⟩

/-- An accepted peer has the device id that was decoded. -/
theorem decode_of_acceptedPeer {selfId : StdString} {msg : Message} {peer : DiscoveryPeer}
    (h : acceptedPeer lib selfId msg = some peer) : ∃ decoded,
    DiscoveryPeer.decode lib msg.payload = .ok decoded ∧ peer.deviceId = decoded.deviceId := by
  simp only [acceptedPeer] at h
  split at h
  · cases h
  next decoded hdecode =>
    split at h
    next => cases h
    next => exact ⟨decoded, hdecode, by rw [← Option.some.inj h]⟩

/-- A datagram is taken by a service that runs. -/
theorem message_of_step {msg : Message} {clock : MessageClock}
    (h : step lib s (.message msg clock) = some s') :
    s.broadcastServer = true ∧ s.onMessage lib msg clock = .ok s' := by
  obtain ⟨hserver, h⟩ := Option.ite_none_right_eq_some.1 h
  exact ⟨hserver, Except.eq_ok_of_toOption h⟩

/-- A datagram that is handled was decoded; it is dropped, or its peer is handled. -/
theorem onMessage_eq_ok {msg : Message} {clock : MessageClock}
    (h : s.onMessage lib msg clock = .ok s') :
    (acceptedPeer lib s.selfPeer.deviceId msg = none ∧ s' = s) ∨
      ∃ peer, acceptedPeer lib s.selfPeer.deviceId msg = some peer ∧
        isSelf s.selfPeer.deviceId peer = false ∧ s.onPeer lib peer clock = .ok s' := by
  obtain ⟨peer, hdec, h⟩ := Except.bind_eq_ok_iff.1 h
  simp only [acceptedPeer, hdec]
  cases hself : isSelf s.selfPeer.deviceId { peer with ipAddress := msg.sender.ipAddress } with
  | true =>
    have hdrop : s.onPeer lib { peer with ipAddress := msg.sender.ipAddress } clock = .ok s := by
      rw [onPeer, if_pos hself]
    exact Or.inl ⟨rfl, Except.ok.inj (h.symm.trans hdrop)⟩
  | false => exact Or.inr ⟨_, rfl, hself, h⟩

/-- What handling a peer does: a peer that has gone is removed, with a new list of devices if an
entry was; any other is recorded, and answered if it is new. -/
theorem onPeer_cases {peer : DiscoveryPeer} {clock : MessageClock}
    (hself : isSelf s.selfPeer.deviceId peer = false) (h : s.onPeer lib peer clock = .ok s') :
    (peer.state = .gone ∧ ∃ removed t, s.removePeerByDeviceId peer.deviceId = (removed, t) ∧
        s' = if removed then t.updateConnectionCandidates else t) ∨
      (peer.state ≠ .gone ∧ ∃ isNew t,
        s.updatePeerState peer clock.seen clock.stale = (isNew, t) ∧
        (isNew = false ∧ s' = t.updateConnectionCandidates ∨
          isNew = true ∧
            t.updateConnectionCandidates.broadcastOwnState lib true clock.broadcast = .ok s')) := by
  rw [onPeer, hself, if_neg Bool.false_ne_true] at h
  split at h
  next hgone => exact Or.inl ⟨hgone, _, _, rfl, (Except.ok.inj h).symm⟩
  next hgone =>
    refine Or.inr ⟨hgone, _, _, rfl, ?_⟩
    simp only at h
    split at h
    next hnew => exact Or.inr ⟨hnew, h⟩
    next hnew => exact Or.inl ⟨Bool.eq_false_iff.2 hnew, (Except.ok.inj h).symm⟩

/-- A peer that says it has gone is removed. -/
theorem onPeer_gone {table : PeerTable} {peer : DiscoveryPeer} {clock : MessageClock}
    (hT : Represents table s) (hself : isSelf s.selfPeer.deviceId peer = false)
    (hgone : peer.state = .gone) (h : s.onPeer lib peer clock = .ok s') :
    SameSelf s s' ∧ Represents (table.remove peer.deviceId) s' ∧
      s'.broadcasts = s.broadcasts := by
  rcases onPeer_cases hself h with ⟨-, removed, t, hremove, rfl⟩ | ⟨hne, -⟩
  · have hrep := hT.removePeerByDeviceId peer.deviceId
    have hsame := sameSelf_removePeerByDeviceId s peer.deviceId
    have hsent := broadcasts_removePeerByDeviceId s peer.deviceId
    rw [hremove] at hrep hsame hsent
    cases removed with
    | false => exact ⟨hsame, hrep, hsent⟩
    | true => exact ⟨hsame.trans ⟨rfl, rfl, rfl⟩, hrep, hsent⟩
  · exact absurd hgone hne

/-- Any other peer is upserted and the table expires; a new one is answered with a broadcast. -/
theorem onPeer_seen {table : PeerTable} {peer : DiscoveryPeer} {clock : MessageClock}
    (hT : Represents table s) (hself : isSelf s.selfPeer.deviceId peer = false)
    (hgone : peer.state ≠ .gone) (h : s.onPeer lib peer clock = .ok s') :
    SameSelf s s' ∧
      Represents ((table.upsert peer clock.seen).expire (isStale clock.stale)) s' ∧
      (table.HasKey peer.deviceId → s'.broadcasts = s.broadcasts) ∧
      (¬ table.HasKey peer.deviceId → s.broadcastClient = true →
        ∃ payload, s.selfPeer.encode lib = .ok payload ∧
          s'.broadcasts = s.broadcasts ++ [payload]) := by
  rcases onPeer_cases hself h with ⟨hgone', -⟩ | ⟨-, isNew, t, hupdate, hcases⟩
  · exact absurd hgone' hgone
  have hrep := hT.updatePeerState peer clock.seen clock.stale
  have hnew := hT.isNew_iff peer clock.seen clock.stale
  have hsame := sameSelf_updatePeerState s peer clock.seen clock.stale
  have hsent := broadcasts_updatePeerState s peer clock.seen clock.stale
  rw [hupdate] at hrep hnew hsame hsent
  rcases hcases with ⟨rfl, rfl⟩ | ⟨rfl, hanswer⟩
  · have hkey : table.HasKey peer.deviceId := by simpa using hnew
    exact ⟨hsame.trans ⟨rfl, rfl, rfl⟩, hrep, fun _ => hsent, fun hno => absurd hkey hno⟩
  · -- a peer is new if the table has no entry with its id, and is then answered
    have hkey : ¬ table.HasKey peer.deviceId := hnew.1 rfl
    obtain ⟨time, new, rfl, hpayload, hforce⟩ := broadcastOwnState_eq_ok hanswer
    refine ⟨hsame.trans ⟨rfl, rfl, rfl⟩, hrep, fun hyes => absurd hyes hkey, fun _ hclient => ?_⟩
    rcases hpayload with hnil | ⟨payload, hencode, hone⟩
    · exact absurd hnil (hforce rfl (hsame.broadcastClient.trans hclient))
    · refine ⟨payload, hsame.selfPeer ▸ hencode, ?_⟩
      rw [hone]
      exact congrArg (· ++ [payload]) hsent

/-- An update expires the table, and broadcasts at most the own state. -/
theorem update_spec {table : PeerTable} {broadcast stale : UInt64} (hT : Represents table s)
    (h : s.update lib broadcast stale = .ok s') : SameSelf s s' ∧
    Represents (table.expire (isStale stale)) s' ∧
    (s'.broadcasts = s.broadcasts ∨ ∃ payload, s.selfPeer.encode lib = .ok payload ∧
      s'.broadcasts = s.broadcasts ++ [payload]) := by
  obtain ⟨t, ht, h⟩ := Except.bind_eq_ok_iff.1 h
  obtain rfl := Except.ok.inj h
  obtain ⟨time, new, rfl, hpayload, -⟩ := broadcastOwnState_eq_ok ht
  refine ⟨⟨rfl, rfl, rfl⟩, Represents.removeStalePeers hT stale, ?_⟩
  rcases hpayload with rfl | ⟨payload, hencode, rfl⟩
  · exact Or.inl (List.append_nil _)
  · exact Or.inr ⟨payload, hencode, rfl⟩

/-- A cleanup empties the table and stops the server. -/
theorem cleanup_spec {now : UInt64} (h : s.cleanup lib now = .ok s') :
    Represents TimedTable.empty s' ∧ s'.selfPeer.deviceId = s.selfPeer.deviceId ∧
      s'.broadcastServer = false := by
  rw [cleanup] at h
  split at h
  next =>
    obtain ⟨t, ht, h⟩ := Except.bind_eq_ok_iff.1 h
    obtain rfl := Except.ok.inj h
    obtain ⟨time, new, rfl, -, -⟩ := broadcastOwnState_eq_ok ht
    exact ⟨⟨rfl, rfl⟩, rfl, rfl⟩
  next =>
    obtain rfl := Except.ok.inj h
    exact ⟨⟨rfl, rfl⟩, rfl, rfl⟩

/-- A cleanup of a service that runs broadcasts the own state once more, as gone. -/
theorem cleanup_cases {now : UInt64} (h : s.cleanup lib now = .ok s') :
    (s.broadcastClient = false ∧ s'.selfPeer = s.selfPeer ∧ s'.broadcasts = s.broadcasts) ∨
      (s.broadcastClient = true ∧ s'.selfPeer = { s.selfPeer with state := .gone } ∧
        ∃ payload, s'.selfPeer.encode lib = .ok payload ∧
          s'.broadcasts = s.broadcasts ++ [payload]) := by
  rw [cleanup] at h
  split at h
  next hclient =>
    obtain ⟨t, ht, h⟩ := Except.bind_eq_ok_iff.1 h
    obtain rfl := Except.ok.inj h
    obtain ⟨time, new, rfl, hpayload, hforce⟩ := broadcastOwnState_eq_ok ht
    refine Or.inr ⟨hclient, rfl, ?_⟩
    rcases hpayload with hnil | ⟨payload, hencode, rfl⟩
    · exact absurd hnil (hforce rfl hclient)
    · exact ⟨payload, hencode, rfl⟩
  next hclient =>
    obtain rfl := Except.ok.inj h
    exact Or.inl ⟨Bool.eq_false_iff.2 hclient, rfl, rfl⟩

/-- After `init` the table is empty, and the own state has been encoded and broadcast twice. -/
theorem init_spec {deviceId deviceName platform : StdString} {first second : UInt64}
    (h : init lib deviceId deviceName platform first second = .ok s) :
    Represents TimedTable.empty s ∧
      s.selfPeer = ⟨deviceId, deviceName, selfIpAddress, platform, .idle⟩ ∧
      s.broadcastClient = true ∧ s.broadcastServer = true ∧
      ∃ payload, s.selfPeer.encode lib = .ok payload ∧ s.broadcasts = [payload, payload] := by
  simp only [init, bind, Except.bind] at h
  split at h
  next => cases h
  next t ht =>
    obtain ⟨time, new, rfl, hpayload, hforce⟩ := broadcastOwnState_eq_ok ht
    obtain ⟨time', new', rfl, hpayload', hforce'⟩ := broadcastOwnState_eq_ok h
    refine ⟨⟨rfl, rfl⟩, rfl, rfl, rfl, ?_⟩
    rcases hpayload with hnil | ⟨payload, hencode, rfl⟩
    · exact absurd hnil (hforce rfl rfl)
    · rcases hpayload' with hnil | ⟨payload', hencode', rfl⟩
      · exact absurd hnil (hforce' rfl rfl)
      · obtain rfl := Except.ok.inj (hencode.symm.trans hencode')
        exact ⟨payload, hencode, rfl⟩

/-! ## What a step says -/

/-- The device stays who it is, and the new payloads are encodings of its state. -/
structure Says (lib : Nlohmann) (s s' : DiscoveryService) : Prop extends SameSelf s s' where
  broadcasts : ∃ new, s'.broadcasts = s.broadcasts ++ new ∧
    ∀ payload ∈ new, s.selfPeer.encode lib = .ok payload

theorem Says.of_same (h : SameSelf s s') (hsent : s'.broadcasts = s.broadcasts) :
    Says lib s s' :=
  ⟨h, [], by rw [hsent, List.append_nil], nofun⟩

theorem Says.trans {t : DiscoveryService} (h : Says lib s t) (h' : Says lib t s') :
    Says lib s s' := by
  obtain ⟨new, hnew, hencode⟩ := h.broadcasts
  obtain ⟨new', hnew', hencode'⟩ := h'.broadcasts
  refine ⟨h.toSameSelf.trans h'.toSameSelf, new ++ new', ?_, fun payload hp => ?_⟩
  · rw [hnew', hnew, List.append_assoc]
  · rcases List.mem_append.1 hp with hp | hp
    · exact hencode payload hp
    · exact h.selfPeer ▸ hencode' payload hp

theorem says_broadcastOwnState {force : Bool} {now : UInt64}
    (h : s.broadcastOwnState lib force now = .ok s') : Says lib s s' := by
  obtain ⟨time, new, rfl, hpayload, -⟩ := broadcastOwnState_eq_ok h
  refine ⟨⟨rfl, rfl, rfl⟩, new, rfl, fun payload hp => ?_⟩
  rcases hpayload with rfl | ⟨payload', hencode, rfl⟩
  · cases hp
  · obtain rfl := List.mem_singleton.1 hp
    exact hencode

/-- The answer to a new peer is the only broadcast of the callback. -/
theorem says_onPeer {peer : DiscoveryPeer} {clock : MessageClock}
    (hself : isSelf s.selfPeer.deviceId peer = false) (h : s.onPeer lib peer clock = .ok s') :
    Says lib s s' := by
  rcases onPeer_cases hself h with ⟨-, removed, t, hremove, rfl⟩ | ⟨-, isNew, t, hupdate, hcases⟩
  · have ht : Says lib s (s.removePeerByDeviceId peer.deviceId).2 :=
      .of_same (sameSelf_removePeerByDeviceId s _) (broadcasts_removePeerByDeviceId s _)
    rw [hremove] at ht
    cases removed with
    | false => exact ht
    | true => exact ht.trans (.of_same ⟨rfl, rfl, rfl⟩ rfl)
  · have ht : Says lib s (s.updatePeerState peer clock.seen clock.stale).2 :=
      .of_same (sameSelf_updatePeerState s _ _ _) (broadcasts_updatePeerState s _ _ _)
    rw [hupdate] at ht
    have ht : Says lib s t.updateConnectionCandidates := ht.trans (.of_same ⟨rfl, rfl, rfl⟩ rfl)
    rcases hcases with ⟨-, rfl⟩ | ⟨-, hanswer⟩
    · exact ht
    · exact ht.trans (says_broadcastOwnState hanswer)

/-- Only a cleanup changes who the device is, or stops it. -/
theorem says_of_step {l : Step} (hl : ∀ now, l ≠ .cleanup now) (h : step lib s l = some s') :
    Says lib s s' := by
  cases l with
  | message msg clock =>
    rcases onMessage_eq_ok (message_of_step h).2 with ⟨-, rfl⟩ | ⟨peer, -, hself, hhandle⟩
    · exact .of_same (.refl _) rfl
    · exact says_onPeer hself hhandle
  | update broadcast stale =>
    obtain ⟨t, ht, h⟩ := Except.bind_eq_ok_iff.1 (Except.eq_ok_of_toOption h)
    obtain rfl := Except.ok.inj h
    exact (says_broadcastOwnState ht).trans (.of_same ⟨rfl, rfl, rfl⟩ rfl)
  | cleanup now => exact absurd rfl (hl now)

/-! ## The invariant -/

/-- The write a step logs: the accepted peer of a datagram, and the time it was handled. -/
def Step.accepted (lib : Nlohmann) (selfId : StdString) : Step → Option (DiscoveryPeer × UInt64)
  | message msg clock => (acceptedPeer lib selfId msg).map fun peer => (peer, clock.seen)
  | _ => none

/-- The accepted messages of a run, oldest first. -/
def acceptedLog (lib : Nlohmann) (selfId : StdString) (ls : List Step) :
    List (DiscoveryPeer × UInt64) :=
  ls.filterMap (Step.accepted lib selfId)

/-- After the steps `ls`, the vectors are the columns of a table of latest messages of other
devices. -/
structure TableInvariant (lib : Nlohmann) (ls : List Step) (s : DiscoveryService)
    (table : PeerTable) : Prop where
  represents : Represents table s
  tracks : table.Tracks (acceptedLog lib s.selfPeer.deviceId ls)
  admissible : ∀ e ∈ table.entries, e.1.deviceId ≠ s.selfPeer.deviceId ∧
    e.1.ipAddress ≠ selfIpAddress ∧ e.1.state ≠ .gone

theorem TableInvariant.init {deviceId deviceName platform : StdString} {first second : UInt64}
    (h : DiscoveryService.init lib deviceId deviceName platform first second = .ok s) :
    TableInvariant lib [] s TimedTable.empty :=
  ⟨(init_spec h).1, TimedTable.tracks_empty _, nofun⟩

/-- A step that logs nothing and only drops entries keeps the invariant. -/
private theorem TableInvariant.of_subset {ls : List Step} {l : Step} {table table' : PeerTable}
    (hI : TableInvariant lib ls s table) (hT : Represents table' s')
    (hself : s'.selfPeer.deviceId = s.selfPeer.deviceId)
    (hlog : Step.accepted lib s.selfPeer.deviceId l = none)
    (hsub : ∀ e ∈ table'.entries, e ∈ table.entries) :
    TableInvariant lib (ls ++ [l]) s' table' := by
  refine ⟨hT, fun e he => ?_, fun e he => ?_⟩
  · rw [hself, acceptedLog, List.filterMap_append, List.filterMap_cons_none hlog,
      List.filterMap_nil, List.append_nil]
    exact hI.tracks e (hsub e he)
  · rw [hself]
    exact hI.admissible e (hsub e he)

/-- Every step keeps the invariant. -/
theorem TableInvariant.step {ls : List Step} {l : Step} {table : PeerTable}
    (hI : TableInvariant lib ls s table) (h : step lib s l = some s') :
    ∃ table', TableInvariant lib (ls ++ [l]) s' table' := by
  cases l with
  | message msg clock =>
    rcases onMessage_eq_ok (message_of_step h).2 with
      ⟨hnone, rfl⟩ | ⟨peer, hpeer, hself, hhandle⟩
    · -- a dropped datagram is not logged
      refine ⟨table, hI.of_subset hI.represents rfl ?_ fun e he => he⟩
      rw [Step.accepted, hnone]
      rfl
    · have hlog : acceptedLog lib s.selfPeer.deviceId (ls ++ [.message msg clock]) =
          acceptedLog lib s.selfPeer.deviceId ls ++ [(peer, clock.seen)] := by
        simp [acceptedLog, List.filterMap_append, Step.accepted, hpeer]
      obtain ⟨-, hip, hid⟩ := acceptedPeer_eq_some hpeer
      by_cases hgone : peer.state = .gone
      · -- a logged message of a peer that has gone leaves no entry of it
        obtain ⟨hsame, hT, -⟩ := onPeer_gone hI.represents hself hgone hhandle
        refine ⟨_, hT, ?_, fun e he => ?_⟩
        · rw [hsame.selfPeer, hlog]
          exact hI.tracks.remove peer clock.seen
        · rw [hsame.selfPeer]
          exact hI.admissible e (TimedTable.mem_remove.1 he).1
      · -- the entry written is the message just logged, and expiry only drops entries
        obtain ⟨hsame, hT, -, -⟩ := onPeer_seen hI.represents hself hgone hhandle
        refine ⟨_, hT, ?_, fun e he => ?_⟩
        · rw [hsame.selfPeer, hlog]
          exact (hI.tracks.upsert peer clock.seen).expire _
        · rw [hsame.selfPeer]
          rcases TimedTable.mem_upsert.1 (TimedTable.mem_expire.1 he).1 with rfl | ⟨he, -⟩
          · exact ⟨hid, hip, hgone⟩
          · exact hI.admissible e he
  | update broadcast stale =>
    obtain ⟨hsame, hT, -⟩ := update_spec hI.represents (Except.eq_ok_of_toOption h)
    exact ⟨_, hI.of_subset hT (congrArg _ hsame.selfPeer) rfl
      fun e he => (TimedTable.mem_expire.1 he).1⟩
  | cleanup now =>
    obtain ⟨hT, hself, -⟩ := cleanup_spec (Except.eq_ok_of_toOption h)
    exact ⟨_, hI.of_subset hT hself rfl nofun⟩

theorem TableInvariant.run {s₀ : DiscoveryService} {ls : List Step}
    (hI : TableInvariant lib [] s₀ TimedTable.empty) (h : (machine lib).run s₀ ls = some s) :
    ∃ table, TableInvariant lib ls s table :=
  Machine.run_induction (motive := fun ls s => ∃ table, TableInvariant lib ls s table) ⟨_, hI⟩
    (fun _ _ _ _ _ ⟨_, hI⟩ hstep => hI.step hstep) h

end DiscoveryService

open DiscoveryService in
/-- The discovery table. After any run of the service, with any clock: the two vectors have one
length, no device id occurs twice, no entry is the device itself, has the loopback address or has
gone, and every entry with its time comes from the latest accepted message of its device. -/
theorem discovery_table_invariant {lib : Nlohmann} {deviceId deviceName platform : StdString}
    {first second : UInt64} {s₀ s : DiscoveryService} {ls : List Step}
    (hinit : init lib deviceId deviceName platform first second = .ok s₀)
    (h : (machine lib).run s₀ ls = some s) :
    s.discoveredPeers.length = s.peerLastSeenTimestamps.length ∧
    (s.discoveredPeers.map DiscoveryPeer.deviceId).Nodup ∧
    (∀ p ∈ s.discoveredPeers, p.deviceId ≠ s.selfPeer.deviceId ∧
      p.ipAddress ≠ selfIpAddress ∧ p.state ≠ .gone) ∧
    ∀ (i : ℕ) p t, s.discoveredPeers[i]? = some p → s.peerLastSeenTimestamps[i]? = some t →
      TimedTable.latest DiscoveryPeer.deviceId (acceptedLog lib s.selfPeer.deviceId ls)
        p.deviceId = some (p, t) := by
  obtain ⟨table, hI⟩ := TableInvariant.run (TableInvariant.init hinit) h
  obtain ⟨hpeers, htimes⟩ := hI.represents
  refine ⟨?_, ?_, fun p hp => ?_, fun i p t hp ht => ?_⟩
  · rw [hpeers, htimes, List.length_map, List.length_map]
  · rw [hpeers, List.map_map]
    exact table.nodup
  · rw [hpeers] at hp
    obtain ⟨e, he, rfl⟩ := List.mem_map.1 hp
    exact hI.admissible e he
  · -- the columns at one index are the two halves of an entry
    rw [hpeers, List.getElem?_map] at hp
    rw [htimes, List.getElem?_map] at ht
    obtain ⟨e, he, rfl⟩ := Option.map_eq_some_iff.1 hp
    rw [he] at ht
    obtain rfl := Option.some.inj ht
    exact hI.tracks e (List.mem_of_getElem? he)

/-- Peers `b` and `c` are seen at the times 1 and 2, and `b` goes. -/
def DiscoveryService.seenAndGone : List DiscoveryService.Step :=
  [.message ⟨⟨.ofString "10.0.0.2"⟩, .self, .ofString "\x7b\"device_id\":\"b\"\x7d"⟩ ⟨1, 1, 1⟩,
    .message ⟨⟨.ofString "10.0.0.3"⟩, .self, .ofString "\x7b\"device_id\":\"c\"\x7d"⟩ ⟨2, 2, 2⟩,
    .message ⟨⟨.ofString "10.0.0.2"⟩, .self, .ofString
      "\x7b\"device_id\":\"b\",\"state\":2\x7d"⟩ ⟨3, 3, 3⟩]

open DiscoveryService in
/-- After this run `c` is left, with its own time. -/
theorem discovery_table_invariant_gone : ∃ s₀ s,
    init JsonText.nlohmann (.ofString "a") [] [] 0 0 = .ok s₀ ∧
      (machine JsonText.nlohmann).run s₀ seenAndGone = some s ∧
      s.peerLastSeenTimestamps = [2] ∧
      s.discoveredPeers.length = s.peerLastSeenTimestamps.length := by
  have hrun : ∃ s₀ ∈ (init JsonText.nlohmann (.ofString "a") [] [] 0 0).toOption,
      ∃ s ∈ (machine JsonText.nlohmann).run s₀ seenAndGone, s.peerLastSeenTimestamps = [2] := by
    decide +kernel
  obtain ⟨s₀, hs₀, s, hs, htimes⟩ := hrun
  have hinit : init JsonText.nlohmann (.ofString "a") [] [] 0 0 = .ok s₀ :=
    Except.eq_ok_of_toOption hs₀
  exact ⟨s₀, s, hinit, hs, htimes, (discovery_table_invariant hinit hs).1⟩

end Keyleport
