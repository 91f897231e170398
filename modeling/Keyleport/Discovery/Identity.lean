import Keyleport.Discovery.Exceptions
import Keyleport.Lib.Json.RoundTrip

/-!
# Identities of devices

`utils/random_id/random_id.h` seeds its generator with the current second, so the id of a device
is a function of the second in which its service is started. The `on_message` callback tells its
own broadcasts from those of others by this id.

* `DiscoveryService.SpeaksFor`: everything a service broadcasts names its own device.
* `DiscoveryService.saysGone_iff`: it says that it has gone if and only if it is cleaned up.
* `DiscoveryService.delivered_listed_iff`: a peer that is not gone is in the table after the
  callback if and only if its id is another one and its entry is not stale at once.
* `broadcast_discovers_iff`: two devices discover each other if and only if their ids differ.
* `same_second_undiscovered`: two devices started in one second have one id.
-/

namespace Keyleport

namespace DiscoveryService

variable {lib : Nlohmann} {s s' : DiscoveryService} {me : DiscoveryPeer}

/-! ## What a service broadcasts -/

/-- The own state and every payload broadcast are those of the device `me`, in some state. -/
structure SpeaksFor (lib : Nlohmann) (me : DiscoveryPeer) (s : DiscoveryService) : Prop where
  selfPeer : ∃ state, s.selfPeer = { me with state := state }
  broadcasts : ∀ payload ∈ s.broadcasts, ∃ state : DiscoveryPeerState,
    { me with state := state }.encode lib = .ok payload

/-- A step that is no cleanup adds at most encodings of the own state. -/
theorem SpeaksFor.of_says (h : SpeaksFor lib me s) (hspoken : Says lib s s') :
    SpeaksFor lib me s' := by
  obtain ⟨state, hself⟩ := h.selfPeer
  obtain ⟨new, hnew, hencode⟩ := hspoken.broadcasts
  refine ⟨⟨state, hspoken.selfPeer.trans hself⟩, fun payload hp => ?_⟩
  rcases List.mem_append.1 (hnew ▸ hp) with hp | hp
  · exact h.broadcasts payload hp
  · exact ⟨state, hself ▸ hencode payload hp⟩

theorem SpeaksFor.init {deviceId deviceName platform : StdString} {first second : UInt64}
    (h : DiscoveryService.init lib deviceId deviceName platform first second = .ok s) :
    SpeaksFor lib ⟨deviceId, deviceName, selfIpAddress, platform, .idle⟩ s := by
  obtain ⟨-, hself, -, -, payload, hencode, hsent⟩ := init_spec h
  refine ⟨⟨.idle, hself⟩, fun payload' hp => ⟨.idle, ?_⟩⟩
  rw [hsent] at hp
  obtain rfl : payload' = payload := by simpa using hp
  rw [← hencode, hself]

/-- A service that handles a message, updates or is cleaned up speaks for the same device. -/
theorem SpeaksFor.step {l : Step} (h : SpeaksFor lib me s) (hs : step lib s l = some s') :
    SpeaksFor lib me s' := by
  by_cases hl : ∃ now, l = .cleanup now
  · obtain ⟨now, rfl⟩ := hl
    obtain ⟨state, hself⟩ := h.selfPeer
    rcases cleanup_cases (Except.eq_ok_of_toOption hs) with
      ⟨-, hself', hsent⟩ | ⟨-, hself', payload, hencode, hsent⟩
    · exact ⟨⟨state, hself'.trans hself⟩, hsent ▸ h.broadcasts⟩
    · -- the device says once more who it is, as gone
      have hgone : s'.selfPeer = { me with state := .gone } := by rw [hself', hself]
      refine ⟨⟨.gone, hgone⟩, fun payload' hp => ?_⟩
      rw [hsent] at hp
      rcases List.mem_append.1 hp with hp | hp
      · exact h.broadcasts payload' hp
      · obtain rfl := List.mem_singleton.1 hp
        exact ⟨.gone, hgone ▸ hencode⟩
  · exact h.of_says (says_of_step (fun now heq => hl ⟨now, heq⟩) hs)

theorem SpeaksFor.run {s₀ : DiscoveryService} {ls : List Step} (h₀ : SpeaksFor lib me s₀)
    (h : (machine lib).run s₀ ls = some s) : SpeaksFor lib me s :=
  Machine.run_invariant (fun _ _ _ hI hstep => hI.step hstep) h₀ h

/-- Whatever is decoded from a payload that a device broadcast names that device. -/
theorem SpeaksFor.deviceId_of_decode (hlib : lib.Lawful) (h : SpeaksFor lib me s)
    {payload : StdString} (hsent : payload ∈ s.broadcasts) {peer : DiscoveryPeer}
    (hdecode : DiscoveryPeer.decode lib payload = .ok peer) : peer.deviceId = me.deviceId := by
  obtain ⟨state, hencode⟩ := h.broadcasts _ hsent
  have hpeer := Except.ok.inj (hdecode.symm.trans (DiscoveryPeer.decode_encode hlib hencode))
  rw [hpeer]

/-- One of the payloads broadcast says that the device has gone. -/
def SaysGone (lib : Nlohmann) (s : DiscoveryService) : Prop :=
  ∃ payload ∈ s.broadcasts, ∃ peer, DiscoveryPeer.decode lib payload = .ok peer ∧
    peer.state = .gone

/-- Payloads that encode a peer say that it has gone if its state is that. -/
theorem saysGone_append_iff (hlib : lib.Lawful) {peer : DiscoveryPeer} {new : List StdString}
    (hsent : s'.broadcasts = s.broadcasts ++ new)
    (hencode : ∀ payload ∈ new, peer.encode lib = .ok payload) :
    SaysGone lib s' ↔ SaysGone lib s ∨ new ≠ [] ∧ peer.state = .gone := by
  constructor
  · rintro ⟨payload, hp, decoded, hdecode, hgone⟩
    rcases List.mem_append.1 (hsent ▸ hp) with hp | hp
    · exact Or.inl ⟨payload, hp, decoded, hdecode, hgone⟩
    · have hdecoded := DiscoveryPeer.decode_encode hlib (hencode payload hp)
      obtain rfl := Except.ok.inj (hdecode.symm.trans hdecoded)
      exact Or.inr ⟨List.ne_nil_of_mem hp, hgone⟩
  · rintro (⟨payload, hp, hdecoded⟩ | ⟨hne, hgone⟩)
    · exact ⟨payload, hsent ▸ List.mem_append_left _ hp, hdecoded⟩
    · obtain ⟨payload, hp⟩ := List.exists_mem_of_ne_nil _ hne
      exact ⟨payload, hsent ▸ List.mem_append_right _ hp, peer,
        DiscoveryPeer.decode_encode hlib (hencode payload hp), hgone⟩

/-- A device says that it has gone if and only if its service is cleaned up. -/
theorem saysGone_iff (hlib : lib.Lawful) {deviceId deviceName platform : StdString}
    {first second : UInt64} {s₀ : DiscoveryService} {ls : List Step}
    (hinit : init lib deviceId deviceName platform first second = .ok s₀)
    (h : (machine lib).run s₀ ls = some s) :
    SaysGone lib s ↔ ∃ now, Step.cleanup now ∈ ls := by
  -- until the first cleanup the device is idle, and its client is there
  suffices (SaysGone lib s ↔ ∃ now, Step.cleanup now ∈ ls) ∧
      ((∃ now, Step.cleanup now ∈ ls) ∨
        s.selfPeer.state = .idle ∧ s.broadcastClient = true) from this.1
  refine Machine.run_induction (motive := fun ls s =>
    (SaysGone lib s ↔ ∃ now, Step.cleanup now ∈ ls) ∧
      ((∃ now, Step.cleanup now ∈ ls) ∨
        s.selfPeer.state = .idle ∧ s.broadcastClient = true)) ?_ ?_ h
  · obtain ⟨-, hself, hclient, -, payload, hencode, hsent⟩ := init_spec hinit
    refine ⟨⟨?_, nofun⟩, Or.inr ⟨by rw [hself], hclient⟩⟩
    rintro ⟨payload', hp, peer, hdecode, hgone⟩
    obtain rfl : payload' = payload := by simpa [hsent] using hp
    rw [DiscoveryPeer.decode_encode hlib hencode, hself] at hdecode
    obtain rfl := Except.ok.inj hdecode
    cases hgone
  · intro ls t l t' _ ⟨hiff, hor⟩ hstep
    by_cases hl : ∃ now, l = .cleanup now
    · obtain ⟨now, rfl⟩ := hl
      have hmem : ∃ now', Step.cleanup now' ∈ ls ++ [.cleanup now] := ⟨now, by simp⟩
      refine ⟨iff_of_true ?_ hmem, Or.inl hmem⟩
      rcases cleanup_cases (Except.eq_ok_of_toOption hstep) with
        ⟨hclient, -, hsent⟩ | ⟨-, hself, payload, hencode, hsent⟩
      · -- it was cleaned up before
        rcases hor with hcleaned | ⟨-, hclient'⟩
        · obtain ⟨payload, hp, hdecoded⟩ := hiff.2 hcleaned
          exact ⟨payload, hsent ▸ hp, hdecoded⟩
        · rw [hclient] at hclient'
          cases hclient'
      · have hnew : ∀ payload' ∈ [payload], t'.selfPeer.encode lib = .ok payload' := by
          simpa using hencode
        exact (saysGone_append_iff hlib hsent hnew).2 (Or.inr ⟨by simp, by rw [hself]⟩)
    · have hmem : (∃ now, Step.cleanup now ∈ ls ++ [l]) ↔ ∃ now, Step.cleanup now ∈ ls := by
        refine exists_congr fun now => ?_
        rw [List.mem_append, List.mem_singleton, or_iff_left fun heq => hl ⟨now, heq.symm⟩]
      have hspoken := says_of_step (fun now heq => hl ⟨now, heq⟩) hstep
      obtain ⟨new, hnew, hencode⟩ := hspoken.broadcasts
      rw [hmem, saysGone_append_iff hlib hnew hencode, ← hiff]
      refine ⟨or_iff_left_of_imp ?_, ?_⟩
      · rintro ⟨-, hgone⟩
        rcases hor with hcleaned | ⟨hidle, -⟩
        · exact hiff.2 hcleaned
        · rw [hidle] at hgone
          cases hgone
      · rw [hspoken.selfPeer, hspoken.broadcastClient, hiff]
        exact hor

/-! ## What a broadcast does where it is delivered -/

/-- A delivered peer that is not gone: who it is, where it is listed, and when it stays. -/
theorem delivered_listed_iff {table : PeerTable} {ls : List Step} {peer : DiscoveryPeer}
    {msg : Message} {clock : MessageClock} (hI : TableInvariant lib ls s table)
    (hdecode : DiscoveryPeer.decode lib msg.payload = .ok peer) (hgone : peer.state ≠ .gone)
    (hip : msg.sender.ipAddress ≠ selfIpAddress) (h : s.onMessage lib msg clock = .ok s') :
    (∃ p ∈ s'.discoveredPeers, p.deviceId = peer.deviceId ∧
      p.ipAddress = msg.sender.ipAddress) ↔
    peer.deviceId ≠ s.selfPeer.deviceId ∧ isStale clock.stale clock.seen = false := by
  have hisSelf : isSelf s.selfPeer.deviceId { peer with ipAddress := msg.sender.ipAddress } =
      decide (peer.deviceId = s.selfPeer.deviceId) := by
    simp [isSelf, hip]
  rw [onMessage, hdecode] at h
  by_cases hid : peer.deviceId = s.selfPeer.deviceId
  · -- taken for an own broadcast, and no entry has the own id
    have hdrop : s.onPeer lib { peer with ipAddress := msg.sender.ipAddress } clock = .ok s := by
      rw [onPeer, hisSelf, hid, decide_eq_true rfl]
      rfl
    obtain rfl : s = s' := Except.ok.inj (hdrop.symm.trans h)
    constructor
    · rintro ⟨p, hp, hpid, -⟩
      rw [hI.represents.1] at hp
      obtain ⟨e, he, rfl⟩ := List.mem_map.1 hp
      exact absurd (hpid.trans hid) (hI.admissible e he).1
    · exact fun hne => absurd hid hne.1
  · -- upserted with the time it was seen, and the only entry with its id
    rw [decide_eq_false hid] at hisSelf
    obtain ⟨-, hT, -, -⟩ := onPeer_seen hI.represents hisSelf hgone h
    rw [hT.1]
    constructor
    · rintro ⟨p, hp, hpid, -⟩
      obtain ⟨e, he, rfl⟩ := List.mem_map.1 hp
      obtain ⟨he, hfresh⟩ := TimedTable.mem_expire.1 he
      rcases TimedTable.mem_upsert.1 he with rfl | ⟨-, hne⟩
      · exact ⟨hid, hfresh⟩
      · exact absurd hpid hne
    · rintro ⟨-, hfresh⟩
      exact ⟨_, List.mem_map_of_mem (TimedTable.mem_expire.2
        ⟨TimedTable.mem_upsert.2 (Or.inl rfl), hfresh⟩), rfl, rfl⟩

end DiscoveryService

open DiscoveryService in
/-- Delivery implies discovery when the ids differ. Two devices take their ids from the seconds in
which they start, and `b` is any reachable state of one of them. A broadcast of the other that
is not gone and is delivered to it under a non-loopback address is handled without an exception
and as that of another device, and the other device is in the table afterwards, if and only if
the two ids differ and no more than the staleness timeout passes inside the callback. -/
theorem broadcast_discovers_iff {lib : Nlohmann} (hlib : lib.Lawful)
    {getRandomId : UInt64 → StdString} {startedA startedB : UInt64}
    {nameA platformA nameB platformB : StdString} {firstA secondA firstB secondB : UInt64}
    {a₀ a b₀ b : DiscoveryService} {lsA lsB : List Step}
    (hinitA : init lib (getRandomId startedA) nameA platformA firstA secondA = .ok a₀)
    (hA : (machine lib).run a₀ lsA = some a)
    (hinitB : init lib (getRandomId startedB) nameB platformB firstB secondB = .ok b₀)
    (hB : (machine lib).run b₀ lsB = some b) (hserver : b.broadcastServer = true)
    {msg : Message} (hsent : msg.payload ∈ a.broadcasts) {peer : DiscoveryPeer}
    (hdecode : DiscoveryPeer.decode lib msg.payload = .ok peer) (hgone : peer.state ≠ .gone)
    (hip : msg.sender.ipAddress ≠ selfIpAddress) {clock : MessageClock}
    (hclock : clock.seen ≤ clock.stale) :
    (isSelf b.selfPeer.deviceId { peer with ipAddress := msg.sender.ipAddress } = false ∧
      ∃ b', b.onMessage lib msg clock = .ok b' ∧ ∃ p ∈ b'.discoveredPeers,
        p.deviceId = a.selfPeer.deviceId ∧ p.ipAddress = msg.sender.ipAddress) ↔
    getRandomId startedA ≠ getRandomId startedB ∧
      clock.stale.toNat ≤ clock.seen.toNat + peerStaleTimeoutMs.toNat := by
  have hspeaksA := SpeaksFor.run (SpeaksFor.init hinitA) hA
  have hspeaksB := SpeaksFor.run (SpeaksFor.init hinitB) hB
  -- the payload names `a`, and each device has the id of its own start
  obtain ⟨stateA, hselfA⟩ := hspeaksA.selfPeer
  obtain ⟨stateB, hselfB⟩ := hspeaksB.selfPeer
  have hidA : a.selfPeer.deviceId = getRandomId startedA := by rw [hselfA]
  have hidB : b.selfPeer.deviceId = getRandomId startedB := by rw [hselfB]
  have hid : peer.deviceId = getRandomId startedA :=
    hspeaksA.deviceId_of_decode hlib hsent hdecode
  -- `b` has encoded its own state before, so the callback returns
  obtain ⟨own, hown⟩ := encode_selfPeer_of_run hinitB hB hserver
  obtain ⟨b', hb'⟩ := (onMessage_ok_iff hown msg clock).2 ⟨peer, hdecode⟩
  obtain ⟨table, hI⟩ := TableInvariant.run (TableInvariant.init hinitB) hB
  have hlisted := delivered_listed_iff hI hdecode hgone hip hb'
  rw [hid, hidB, isStale_eq_false_iff hclock] at hlisted
  rw [hidA, hidB]
  constructor
  · rintro ⟨-, b'', hb'', hmem⟩
    obtain rfl : b' = b'' := Except.ok.inj (hb'.symm.trans hb'')
    exact hlisted.1 hmem
  · rintro ⟨hne, hfresh⟩
    exact ⟨by simp [isSelf, hip, hid, hne], b', hb', hlisted.2 ⟨hne, hfresh⟩⟩

/-- An id for each second: a letter. -/
def letterId (second : UInt64) : StdString := [97 + (second % 26).toUInt8]

open DiscoveryService in
/-- Two devices started in different seconds discover each other. -/
theorem broadcast_discovers_iff_different : ∃ a₀ b₀ payload peer b',
    init JsonText.nlohmann (letterId 0) [] [] 1000 1000 = .ok a₀ ∧
    init JsonText.nlohmann (letterId 1) [] [] 1000 1000 = .ok b₀ ∧ payload ∈ a₀.broadcasts ∧
    DiscoveryPeer.decode JsonText.nlohmann payload = .ok peer ∧
    b₀.onMessage JsonText.nlohmann ⟨⟨.ofString "10.0.0.2"⟩, .self, payload⟩ ⟨1001, 1001, 1001⟩ =
      .ok b' ∧ ∃ p ∈ b'.discoveredPeers, p.deviceId = a₀.selfPeer.deviceId := by
  have hrun : ∃ a₀ ∈ (init JsonText.nlohmann (letterId 0) [] [] 1000 1000).toOption,
      ∃ b₀ ∈ (init JsonText.nlohmann (letterId 1) [] [] 1000 1000).toOption,
      b₀.broadcastServer = true ∧ ∃ payload ∈ a₀.broadcasts.head?,
      ∃ peer ∈ (DiscoveryPeer.decode JsonText.nlohmann payload).toOption, peer.state ≠ .gone := by
    decide +kernel
  obtain ⟨a₀, ha₀, b₀, hb₀, hserver, payload, hpayload, peer, hpeer, hgone⟩ := hrun
  have hinitA : init JsonText.nlohmann (letterId 0) [] [] 1000 1000 = .ok a₀ :=
    Except.eq_ok_of_toOption ha₀
  have hinitB : init JsonText.nlohmann (letterId 1) [] [] 1000 1000 = .ok b₀ :=
    Except.eq_ok_of_toOption hb₀
  have hsent : payload ∈ a₀.broadcasts := List.mem_of_mem_head? hpayload
  have hdecode : DiscoveryPeer.decode JsonText.nlohmann payload = .ok peer :=
    Except.eq_ok_of_toOption hpeer
  have hip : StdString.ofString "10.0.0.2" ≠ selfIpAddress := by decide
  have hstart : ∀ s : DiscoveryService, (machine JsonText.nlohmann).run s [] = some s :=
    fun _ => rfl
  let msg : Message := ⟨⟨.ofString "10.0.0.2"⟩, .self, payload⟩
  let clock : MessageClock := ⟨1001, 1001, 1001⟩
  have hclock : clock.seen ≤ clock.stale := by decide
  have hsent' : msg.payload ∈ a₀.broadcasts := hsent
  have hip' : msg.sender.ipAddress ≠ selfIpAddress := hip
  obtain ⟨-, b', hb', p, hp, hid, -⟩ := (broadcast_discovers_iff JsonText.lawful hinitA
    (hstart a₀) hinitB (hstart b₀) hserver hsent' hdecode hgone hip' hclock).2
    ⟨by decide, by decide⟩
  exact ⟨a₀, b₀, payload, peer, b', hinitA, hinitB, hsent, hdecode, hb', p, hp, hid⟩

open DiscoveryService in
/-- Two devices started in the same second never discover each other: each takes the broadcasts
of the other for its own. -/
theorem same_second_undiscovered : ¬ ∀ (getRandomId : UInt64 → StdString)
    (startedA startedB : UInt64) (nameA platformA nameB platformB : StdString)
    (firstA secondA firstB secondB : UInt64) (a₀ a b₀ b : DiscoveryService) (lsA lsB : List Step)
    (msg : Message) (peer : DiscoveryPeer) (clock : MessageClock),
    init JsonText.nlohmann (getRandomId startedA) nameA platformA firstA secondA = .ok a₀ →
    (machine JsonText.nlohmann).run a₀ lsA = some a →
    init JsonText.nlohmann (getRandomId startedB) nameB platformB firstB secondB = .ok b₀ →
    (machine JsonText.nlohmann).run b₀ lsB = some b → b.broadcastServer = true →
    msg.payload ∈ a.broadcasts → DiscoveryPeer.decode JsonText.nlohmann msg.payload = .ok peer →
    peer.state ≠ .gone → msg.sender.ipAddress ≠ selfIpAddress → clock.seen ≤ clock.stale →
    ∃ b', b.onMessage JsonText.nlohmann msg clock = .ok b' ∧
      ∃ p ∈ b'.discoveredPeers, p.deviceId = a.selfPeer.deviceId := by
  intro hdiscovers
  have hrun : ∃ a₀ ∈ (init JsonText.nlohmann (letterId 0) [] [] 1000 1000).toOption,
      a₀.broadcastServer = true ∧ ∃ payload ∈ a₀.broadcasts.head?,
      (∃ peer ∈ (DiscoveryPeer.decode JsonText.nlohmann payload).toOption, peer.state ≠ .gone) ∧
      ∃ a' ∈ (a₀.onMessage JsonText.nlohmann ⟨⟨.ofString "10.0.0.2"⟩, .self, payload⟩
        ⟨1001, 1001, 1001⟩).toOption, a'.discoveredPeers = [] := by
    decide +kernel
  obtain ⟨a₀, ha₀, hserver, payload, hpayload, ⟨peer, hpeer, hgone⟩, a', ha', hempty⟩ := hrun
  have hinit : init JsonText.nlohmann (letterId 0) [] [] 1000 1000 = .ok a₀ :=
    Except.eq_ok_of_toOption ha₀
  have hip : StdString.ofString "10.0.0.2" ≠ selfIpAddress := by decide
  obtain ⟨b', hb', p, hp, -⟩ := hdiscovers letterId 0 0 [] [] [] [] 1000 1000 1000 1000 a₀ a₀ a₀
    a₀ [] [] ⟨⟨.ofString "10.0.0.2"⟩, .self, payload⟩ peer ⟨1001, 1001, 1001⟩ hinit rfl hinit rfl
    hserver (List.mem_of_mem_head? hpayload) (Except.eq_ok_of_toOption hpeer) hgone hip
    (by decide)
  obtain rfl : a' = b' := Except.ok.inj ((Except.eq_ok_of_toOption ha').symm.trans hb')
  rw [hempty] at hp
  cases hp

end Keyleport
