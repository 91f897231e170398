import Keyleport.Discovery.Candidates
import Keyleport.Discovery.Exceptions

/-!
# Malformed datagrams

A payload that is not a JSON object decodes to the default peer, and an object without a
`device_id` to a peer with an empty one. The callback takes either for a device whose id is empty.

* `DiscoveryService.NoDeviceId`, `DiscoveryService.Inert`: the malformed datagrams, and what
  ignoring one means.
* `malformed_inert_iff`: exactly when a malformed datagram is ignored.
* `malformed_recorded`: a text that is not JSON is listed as a device, and answered.
-/

namespace Keyleport

namespace DiscoveryPeer

variable {lib : Nlohmann}

/-- The device id of an object that is read is its member of that name. -/
theorem deviceId_of_ofJson {j : Json} {p : DiscoveryPeer} (h : ofJson lib j = .ok p) :
    j.valueString (.ofString "device_id") [] = .ok p.deviceId := by
  obtain ⟨deviceId, hid, h⟩ := Except.bind_eq_ok_iff.1 h
  obtain ⟨deviceName, -, h⟩ := Except.bind_eq_ok_iff.1 h
  obtain ⟨ipAddress, -, h⟩ := Except.bind_eq_ok_iff.1 h
  obtain ⟨platform, -, h⟩ := Except.bind_eq_ok_iff.1 h
  rw [hid]
  split at h
  next =>
    obtain ⟨sv, -, h⟩ := Except.bind_eq_ok_iff.1 h
    rw [← Except.ok.inj h]
  next => rw [← Except.ok.inj h]

end DiscoveryPeer

namespace DiscoveryService

variable {lib : Nlohmann} {s s' : DiscoveryService} {table : PeerTable}

/-- The payload is not a JSON object, or an object without a `device_id`. -/
def NoDeviceId (lib : Nlohmann) (payload : StdString) : Prop :=
  ∀ j, lib.parseObject payload = some j → j.find? (.ofString "device_id") = none

/-- A malformed payload that decodes gives a peer with an empty device id. -/
theorem NoDeviceId.deviceId_eq {payload : StdString} (h : NoDeviceId lib payload)
    {peer : DiscoveryPeer} (hdecode : DiscoveryPeer.decode lib payload = .ok peer) :
    peer.deviceId = [] := by
  rw [DiscoveryPeer.decode] at hdecode
  cases hparse : lib.parseObject payload with
  | none =>
    rw [hparse] at hdecode
    rw [← Except.ok.inj hdecode]
    rfl
  | some j =>
    rw [hparse] at hdecode
    have hid := DiscoveryPeer.deviceId_of_ofJson hdecode
    rw [Json.valueString, Json.value, h j hparse] at hid
    exact (Except.ok.inj hid).symm

/-- The peers, their times, the list of devices and the broadcasts are as they were. -/
structure Unchanged (s s' : DiscoveryService) : Prop where
  discoveredPeers : s'.discoveredPeers = s.discoveredPeers
  peerLastSeenTimestamps : s'.peerLastSeenTimestamps = s.peerLastSeenTimestamps
  availableDevices : s'.availableDevices = s.availableDevices
  broadcasts : s'.broadcasts = s.broadcasts

/-- The datagram is ignored: the callback returns, and has changed nothing. -/
def Inert (lib : Nlohmann) (s : DiscoveryService) (msg : Message) (clock : MessageClock) : Prop :=
  ∃ s', s.onMessage lib msg clock = .ok s' ∧ Unchanged s s'

/-- Handling a peer changes nothing: it is taken for this device, it has gone and is not known, or
it is known exactly as it is, at the same time, and no peer is stale. -/
def Unchanging (s : DiscoveryService) (peer : DiscoveryPeer) (clock : MessageClock) : Prop :=
  peer.deviceId = s.selfPeer.deviceId ∨
    (peer.state = .gone ∧ ∀ p ∈ s.discoveredPeers, p.deviceId ≠ peer.deviceId) ∨
    (peer.state ≠ .gone ∧
      (peer, clock.seen) ∈ s.discoveredPeers.zip s.peerLastSeenTimestamps ∧
      ∀ t ∈ s.peerLastSeenTimestamps, isStale clock.stale t = false)

/-- The known peers have the device ids of the table. -/
theorem Represents.hasKey_iff (hT : Represents table s) {deviceId : StdString} :
    table.HasKey deviceId ↔ ∃ p ∈ s.discoveredPeers, p.deviceId = deviceId := by
  rw [hT.1, TimedTable.HasKey]
  constructor
  · rintro ⟨e, he, hid⟩
    exact ⟨e.1, List.mem_map_of_mem he, hid⟩
  · rintro ⟨p, hp, hid⟩
    obtain ⟨e, he, rfl⟩ := List.mem_map.1 hp
    exact ⟨e, he, hid⟩

/-- Two tables with the same columns are one. -/
theorem Represents.entries_eq {table' : PeerTable} (hT : Represents table s)
    (hT' : Represents table' s') (hpeers : s'.discoveredPeers = s.discoveredPeers)
    (htimes : s'.peerLastSeenTimestamps = s.peerLastSeenTimestamps) :
    table'.entries = table.entries := by
  rw [← hT'.zip_eq, hpeers, htimes, hT.zip_eq]

/-- A peer that is known exactly as it is, at the same time, changes nothing if no peer is stale. -/
theorem unchanged_of_known {peer : DiscoveryPeer} {clock : MessageClock} (hT : Represents table s)
    (hlist : s.availableDevices = candidatesOf s.discoveredPeers)
    (hself : isSelf s.selfPeer.deviceId peer = false) (hgone : peer.state ≠ .gone)
    (hmem : (peer, clock.seen) ∈ table.entries)
    (hfresh : ∀ e ∈ table.entries, isStale clock.stale e.2 = false)
    (h : s.onPeer lib peer clock = .ok s') : Unchanged s s' := by
  obtain ⟨-, hT', hsent, -⟩ := onPeer_seen hT hself hgone h
  rw [TimedTable.upsert_eq_self hmem, TimedTable.expire_eq_self hfresh] at hT'
  have hpeers : s'.discoveredPeers = s.discoveredPeers := hT'.1.trans hT.1.symm
  refine ⟨hpeers, hT'.2.trans hT.2.symm, ?_, hsent ⟨_, hmem, rfl⟩⟩
  -- the list is made again from the same peers
  rcases availableDevices_onPeer hself h with hmade | rfl
  · rw [hmade, hpeers, hlist]
  · rfl

/-- A peer that changes nothing and has not gone is known exactly as it is, and no peer is stale. -/
theorem known_of_unchanged {peer : DiscoveryPeer} {clock : MessageClock} (hT : Represents table s)
    (hclient : s.broadcastClient = true) (hself : isSelf s.selfPeer.deviceId peer = false)
    (hgone : peer.state ≠ .gone) (h : s.onPeer lib peer clock = .ok s') (hsame : Unchanged s s') :
    (peer, clock.seen) ∈ table.entries ∧
      ∀ e ∈ table.entries, isStale clock.stale e.2 = false := by
  obtain ⟨-, hT', -, hnew⟩ := onPeer_seen hT hself hgone h
  have hentries := hT.entries_eq hT' hsame.discoveredPeers hsame.peerLastSeenTimestamps
  have hmem : ∀ e ∈ table.entries, isStale clock.stale e.2 = false ∧
      (e = (peer, clock.seen) ∨ e.1.deviceId ≠ peer.deviceId) := by
    intro e he
    rw [← hentries] at he
    obtain ⟨he, hfresh⟩ := TimedTable.mem_expire.1 he
    exact ⟨hfresh, (TimedTable.mem_upsert.1 he).imp_right And.right⟩
  refine ⟨?_, fun e he => (hmem e he).1⟩
  -- a peer that is not known would be answered
  by_cases hkey : table.HasKey peer.deviceId
  · obtain ⟨e, he, hid⟩ := hkey
    rcases (hmem e he).2 with rfl | hne
    · exact he
    · exact absurd hid hne
  · obtain ⟨payload, -, hsent⟩ := hnew hkey hclient
    rw [hsame.broadcasts] at hsent
    exact absurd hsent (by simp)

/-- When handling a peer changes nothing. -/
theorem unchanged_onPeer_iff {peer : DiscoveryPeer} {clock : MessageClock}
    (hT : Represents table s) (hclient : s.broadcastClient = true)
    (hlist : s.availableDevices = candidatesOf s.discoveredPeers)
    (hip : peer.ipAddress ≠ selfIpAddress) (h : s.onPeer lib peer clock = .ok s') :
    Unchanged s s' ↔ Unchanging s peer clock := by
  by_cases hid : peer.deviceId = s.selfPeer.deviceId
  · -- taken for this device
    have hdrop : s.onPeer lib peer clock = .ok s := by
      rw [onPeer, isSelf, if_pos (decide_eq_true (Or.inr hid))]
    obtain rfl := Except.ok.inj (hdrop.symm.trans h)
    exact iff_of_true ⟨rfl, rfl, rfl, rfl⟩ (Or.inl hid)
  have hself : isSelf s.selfPeer.deviceId peer = false := by simp [isSelf, hip, hid]
  rw [Unchanging, or_iff_right hid]
  by_cases hgone : peer.state = .gone
  · rw [and_iff_right hgone, or_iff_left fun hor => hor.1 hgone]
    constructor
    · intro hsame p hp heq
      obtain ⟨-, hT', -⟩ := onPeer_gone hT hself hgone h
      have hentries := hT.entries_eq hT' hsame.discoveredPeers hsame.peerLastSeenTimestamps
      obtain ⟨e, he, hkey⟩ := hT.hasKey_iff.2 ⟨p, hp, heq⟩
      rw [← hentries] at he
      exact (TimedTable.mem_remove.1 he).2 hkey
    · intro hunknown
      have hnothing : s.onPeer lib peer clock = .ok s :=
        onPeer_gone_of_unknown hself hgone hunknown
      obtain rfl := Except.ok.inj (hnothing.symm.trans h)
      exact ⟨rfl, rfl, rfl, rfl⟩
  · rw [or_iff_right fun hor => hgone hor.1, and_iff_right hgone, hT.zip_eq, hT.2]
    simp only [List.forall_mem_map]
    exact ⟨known_of_unchanged hT hclient hself hgone h, fun hknown =>
      unchanged_of_known hT hlist hself hgone hknown.1 hknown.2 h⟩

/-- The client is there as long as the server is. -/
theorem broadcastClient_of_run {deviceId deviceName platform : StdString} {first second : UInt64}
    {s₀ : DiscoveryService} {ls : List Step}
    (hinit : init lib deviceId deviceName platform first second = .ok s₀)
    (h : (machine lib).run s₀ ls = some s) (hserver : s.broadcastServer = true) :
    s.broadcastClient = true := by
  revert hserver
  refine Machine.run_invariant
    (I := fun s => s.broadcastServer = true → s.broadcastClient = true) ?_ ?_ h
  · intro t l t' ht hstep hserver
    rcases sameSelf_of_step hstep with hsame | hstopped
    · rw [hsame.broadcastClient]
      exact ht (hsame.broadcastServer ▸ hserver)
    · rw [hstopped] at hserver
      cases hserver
  · obtain ⟨-, -, hclient, -⟩ := init_spec hinit
    exact fun _ => hclient

end DiscoveryService

open DiscoveryService in
/-- When a malformed datagram is ignored. In every state a running service can reach, a payload that
is not a JSON object, or an object without a `device_id`, delivered under a non-loopback address
is ignored if and only if it decodes, and this device has an empty id itself, or the payload says
that its device has gone and no peer with an empty id is known, or such a peer is known exactly as
in the payload, under the address and at the time of this datagram, and no peer is stale. -/
theorem malformed_inert_iff {lib : Nlohmann} {deviceId deviceName platform : StdString}
    {first second : UInt64} {s₀ s : DiscoveryService} {ls : List Step}
    (hinit : init lib deviceId deviceName platform first second = .ok s₀)
    (h : (machine lib).run s₀ ls = some s) (hserver : s.broadcastServer = true)
    {msg : Message} {clock : MessageClock} (hpayload : NoDeviceId lib msg.payload)
    (hip : msg.sender.ipAddress ≠ selfIpAddress) :
    Inert lib s msg clock ↔ ∃ peer, DiscoveryPeer.decode lib msg.payload = .ok peer ∧
      (s.selfPeer.deviceId = [] ∨
      (peer.state = .gone ∧ ∀ p ∈ s.discoveredPeers, p.deviceId ≠ []) ∨
      (peer.state ≠ .gone ∧
        ({ peer with ipAddress := msg.sender.ipAddress }, clock.seen) ∈
          s.discoveredPeers.zip s.peerLastSeenTimestamps ∧
        ∀ t ∈ s.peerLastSeenTimestamps, isStale clock.stale t = false)) := by
  obtain ⟨own, hown⟩ := encode_selfPeer_of_run hinit h hserver
  obtain ⟨table, hI⟩ := TableInvariant.run (.init hinit) h
  have hclient := broadcastClient_of_run hinit h hserver
  obtain ⟨hempty, hpeers⟩ := availableDevices_init hinit
  have hlist : s.availableDevices = candidatesOf s.discoveredPeers :=
    availableDevices_of_run (by rw [hempty, hpeers]; rfl) h hserver
  -- of a payload that decodes, the callback returns, and what it did is what `onPeer` does
  have hiff : ∀ {peer}, DiscoveryPeer.decode lib msg.payload = .ok peer → ∀ {s'},
      s.onMessage lib msg clock = .ok s' →
      (Unchanged s s' ↔ Unchanging s { peer with ipAddress := msg.sender.ipAddress } clock) := by
    intro peer hdecode s' hs'
    rw [onMessage, hdecode] at hs'
    exact unchanged_onPeer_iff hI.represents hclient hlist hip hs'
  constructor
  · rintro ⟨s', hs', hsame⟩
    obtain ⟨⟨id, deviceName, ipAddress, platform, state⟩, hdecode⟩ :=
      (onMessage_ok_iff hown msg clock).1 ⟨s', hs'⟩
    obtain rfl : id = [] := hpayload.deviceId_eq hdecode
    exact ⟨_, hdecode, ((hiff hdecode hs').1 hsame).imp_left Eq.symm⟩
  · rintro ⟨⟨id, deviceName, ipAddress, platform, state⟩, hdecode, hunchanging⟩
    obtain rfl : id = [] := hpayload.deviceId_eq hdecode
    obtain ⟨s', hs'⟩ := (onMessage_ok_iff hown msg clock).2 ⟨_, hdecode⟩
    exact ⟨s', hs', (hiff hdecode hs').2 (hunchanging.imp_left Eq.symm)⟩

open DiscoveryService in
/-- An object that says only that its device has gone is ignored in the state after `init`. -/
theorem malformed_inert_iff_gone : ∃ s₀,
    init JsonText.nlohmann (.ofString "a") [] [] 0 0 = .ok s₀ ∧ ∀ clock,
      Inert JsonText.nlohmann s₀
        ⟨⟨.ofString "10.0.0.2"⟩, .self, .ofString "\x7b\"state\":2\x7d"⟩ clock := by
  obtain ⟨s₀, hinit, hserver⟩ := exists_init
  have hpayload : NoDeviceId JsonText.nlohmann (.ofString "\x7b\"state\":2\x7d") := by
    have hfind : ∀ j ∈ JsonText.nlohmann.parseObject (.ofString "\x7b\"state\":2\x7d"),
        j.find? (.ofString "device_id") = none := by
      decide +kernel
    exact hfind
  have hgone : ∃ peer ∈ (DiscoveryPeer.decode JsonText.nlohmann
      (.ofString "\x7b\"state\":2\x7d")).toOption, peer.state = .gone := by
    decide +kernel
  have hempty : (machine JsonText.nlohmann).run s₀ [] = some s₀ := rfl
  obtain ⟨peer, hpeer, hstate⟩ := hgone
  refine ⟨s₀, hinit, fun clock => (malformed_inert_iff hinit hempty hserver hpayload (by decide)).2
    ⟨peer, Except.eq_ok_of_toOption hpeer, Or.inr (Or.inl ⟨hstate, ?_⟩)⟩⟩
  rw [(availableDevices_init hinit).2]
  exact nofun

open DiscoveryService in
/-- A text that is not JSON is recorded as a device in the state after `init`, and answered. -/
theorem malformed_recorded : ¬ ∀ (deviceId deviceName platform : StdString)
    (first second : UInt64) (s₀ s : DiscoveryService) (ls : List Step) (msg : Message)
    (clock : MessageClock), init JsonText.nlohmann deviceId deviceName platform first second =
      .ok s₀ → (machine JsonText.nlohmann).run s₀ ls = some s → s.broadcastServer = true →
    NoDeviceId JsonText.nlohmann msg.payload → msg.sender.ipAddress ≠ selfIpAddress →
    Inert JsonText.nlohmann s msg clock := by
  intro hinert
  have hrun : ∃ s₀ ∈ (init JsonText.nlohmann (.ofString "a") [] [] 0 0).toOption,
      s₀.broadcastServer = true ∧ s₀.broadcasts.length = 2 ∧ ∃ s' ∈ (s₀.onMessage JsonText.nlohmann
        ⟨⟨.ofString "10.0.0.2"⟩, .self, .ofString "x"⟩ ⟨0, 0, 0⟩).toOption,
        s'.broadcasts.length = 3 := by
    decide +kernel
  obtain ⟨s₀, hs₀, hserver, htwo, s', hs', hthree⟩ := hrun
  have hnone : JsonText.nlohmann.parseObject (.ofString "x") = none := by decide +kernel
  have hpayload : NoDeviceId JsonText.nlohmann (.ofString "x") := fun j hj => by
    rw [hnone] at hj
    cases hj
  obtain ⟨t, ht, hsame⟩ := hinert _ _ _ _ _ s₀ s₀ []
    ⟨⟨.ofString "10.0.0.2"⟩, .self, .ofString "x"⟩ ⟨0, 0, 0⟩ (Except.eq_ok_of_toOption hs₀) rfl
    hserver hpayload (by decide)
  obtain rfl := Except.ok.inj ((Except.eq_ok_of_toOption hs').symm.trans ht)
  rw [hsame.broadcasts, htwo] at hthree
  cases hthree

end Keyleport
