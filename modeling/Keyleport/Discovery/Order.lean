import Keyleport.Discovery.Candidates
import Keyleport.Discovery.Exceptions

/-!
# The order in which devices are heard

Datagrams that are handled at one reading of the clock are writes at one time to the table of
known peers. Those of different devices commute, and nothing of what they leave behind depends on
how they are interleaved.

* `DiscoveryService.handle`: a list of datagrams, with all readings of the clock equal.
* `DiscoveryService.Represents.handle`: what it does to the table.
* `DiscoveryService.handle_list`: when it makes the list of devices again.
* `heard_in_any_order`: any two orders that keep the datagrams of each device in order.
-/

namespace Keyleport

namespace DiscoveryService

variable {lib : Nlohmann} {s s' : DiscoveryService} {table : PeerTable} {now : UInt64}
  {msgs msgs' : List Message}

/-- Handle datagrams one after another, with all readings of the clock equal. -/
def handle (lib : Nlohmann) (s : DiscoveryService) (now : UInt64) (msgs : List Message) :
    Except TypeError DiscoveryService :=
  msgs.foldlM (fun s msg => s.onMessage lib msg ⟨now, now, now⟩) s

/-- The device id that a datagram is decoded to. -/
def deviceIdOf (lib : Nlohmann) (msg : Message) : Option StdString :=
  (DiscoveryPeer.decode lib msg.payload).toOption.map DiscoveryPeer.deviceId

/-- The entry of a device id. -/
def entryOf (s : DiscoveryService) (deviceId : StdString) : Option (DiscoveryPeer × UInt64) :=
  (s.discoveredPeers.zip s.peerLastSeenTimestamps).find? fun e => e.1.deviceId = deviceId

/-- Whether a peer is recorded, and not removed. -/
def isSeen (peer : DiscoveryPeer) : Bool := peer.state ≠ .gone

theorem handle_cons {msg : Message} : s.handle lib now (msg :: msgs) =
    s.onMessage lib msg ⟨now, now, now⟩ >>= fun t => t.handle lib now msgs := rfl

/-- A time is not stale at the same reading. -/
theorem isStale_self (now : UInt64) : isStale now now = false :=
  (isStale_eq_false_iff (UInt64.le_refl now)).2 (Nat.le_add_right _ _)

/-! ## The table -/

/-- A datagram is a write to the table, if its peer is accepted. -/
theorem Represents.onMessage {msg : Message} (hT : Represents table s)
    (h : s.onMessage lib msg ⟨now, now, now⟩ = .ok s') : SameSelf s s' ∧
      Represents (table.replay isSeen (isStale now) now
        (acceptedPeer lib s.selfPeer.deviceId msg).toList) s' := by
  rcases onMessage_eq_ok h with ⟨hnone, rfl⟩ | ⟨peer, hpeer, hself, hhandle⟩
  · rw [hnone]
    exact ⟨.refl _, hT⟩
  · rw [hpeer]
    by_cases hgone : peer.state = .gone
    · obtain ⟨hsame, hT', -⟩ := onPeer_gone hT hself hgone hhandle
      refine ⟨hsame, ?_⟩
      have hwrite : table.replay isSeen (isStale now) now (some peer).toList =
          table.remove peer.deviceId := if_neg (by simp [isSeen, hgone])
      rw [hwrite]
      exact hT'
    · obtain ⟨hsame, hT', -⟩ := onPeer_seen hT hself hgone hhandle
      refine ⟨hsame, ?_⟩
      have hwrite : table.replay isSeen (isStale now) now (some peer).toList =
          (table.upsert peer now).expire (isStale now) := if_pos (by simp [isSeen, hgone])
      rw [hwrite]
      exact hT'

/-- The accepted peers of datagrams are written to the table in their order. -/
theorem Represents.handle (hT : Represents table s) (h : s.handle lib now msgs = .ok s') :
    SameSelf s s' ∧ Represents (table.replay isSeen (isStale now) now
      (msgs.filterMap (acceptedPeer lib s.selfPeer.deviceId))) s' := by
  induction msgs generalizing s table with
  | nil =>
    obtain rfl := Except.ok.inj h
    exact ⟨.refl _, hT⟩
  | cons msg msgs ih =>
    rw [handle_cons] at h
    obtain ⟨t, ht, h⟩ := Except.bind_eq_ok_iff.1 h
    obtain ⟨hsame, hTt⟩ := hT.onMessage ht
    obtain ⟨hsame', hT'⟩ := ih hTt h
    refine ⟨hsame.trans hsame', ?_⟩
    rw [hsame.selfPeer] at hT'
    rw [List.filterMap_cons]
    cases hpeer : acceptedPeer lib s.selfPeer.deviceId msg with
    | none =>
      rw [hpeer] at hT'
      exact hT'
    | some peer =>
      rw [hpeer] at hT'
      exact hT'

/-- While the own state encodes, datagrams that decode are handled. -/
theorem handle_ok (hT : Represents table s) {own : StdString}
    (hown : s.selfPeer.encode lib = .ok own)
    (hwell : ∀ msg ∈ msgs, (deviceIdOf lib msg).isSome) : ∃ t, s.handle lib now msgs = .ok t := by
  induction msgs generalizing s table with
  | nil => exact ⟨s, rfl⟩
  | cons msg msgs ih =>
    rw [List.forall_mem_cons] at hwell
    have hdecodes : ∃ peer, DiscoveryPeer.decode lib msg.payload = .ok peer := by
      obtain ⟨id, hid⟩ := Option.isSome_iff_exists.1 hwell.1
      obtain ⟨peer, hpeer, -⟩ := Option.map_eq_some_iff.1 hid
      exact ⟨peer, Except.eq_ok_of_toOption hpeer⟩
    obtain ⟨t, ht⟩ := (onMessage_ok_iff hown msg ⟨now, now, now⟩).2 hdecodes
    obtain ⟨hsame, hTt⟩ := hT.onMessage ht
    rw [handle_cons, Except.bind_ok_iff]
    exact ⟨t, ht, ih hTt (hsame.selfPeer ▸ hown) hwell.2⟩

/-- The entry of a device id is that of the table. -/
theorem Represents.entryOf_eq_some_iff (hT : Represents table s) {deviceId : StdString}
    {e : DiscoveryPeer × UInt64} :
    s.entryOf deviceId = some e ↔ e ∈ table.entries ∧ e.1.deviceId = deviceId := by
  rw [entryOf, hT.zip_eq]
  exact TimedTable.find?_eq_some_iff

/-! ## The list of devices -/

/-- One of the peers has not gone, or is known. -/
def Touches (s : DiscoveryService) (peers : List DiscoveryPeer) : Prop :=
  ∃ peer ∈ peers, peer.state ≠ .gone ∨ ∃ p ∈ s.discoveredPeers, p.deviceId = peer.deviceId

/-- A list that holds the candidates of the known peers goes on to hold them. -/
theorem handle_keeps_list (hlist : s.availableDevices = candidatesOf s.discoveredPeers)
    (h : s.handle lib now msgs = .ok s') :
    s'.availableDevices = candidatesOf s'.discoveredPeers := by
  refine Except.foldlM_invariant (P := fun s => s.availableDevices =
    candidatesOf s.discoveredPeers) (fun msg _ t t' ht hmsg => ?_) hlist h
  rcases onMessage_eq_ok hmsg with ⟨-, rfl⟩ | ⟨peer, -, hself, hhandle⟩
  · exact ht
  · rcases availableDevices_onPeer hself hhandle with hmade | rfl
    · exact hmade
    · exact ht

/-- Datagrams make the list of devices again if one of their peers has not gone or is known, and
otherwise change nothing. -/
theorem handle_list (h : s.handle lib now msgs = .ok s') :
    (Touches s (msgs.filterMap (acceptedPeer lib s.selfPeer.deviceId)) →
      s'.availableDevices = candidatesOf s'.discoveredPeers) ∧
    (¬ Touches s (msgs.filterMap (acceptedPeer lib s.selfPeer.deviceId)) → s' = s) := by
  induction msgs generalizing s with
  | nil =>
    obtain rfl := Except.ok.inj h
    refine ⟨?_, fun _ => rfl⟩
    rintro ⟨peer, hpeer, -⟩
    cases hpeer
  | cons msg msgs ih =>
    rw [handle_cons] at h
    obtain ⟨t, ht, hrest⟩ := Except.bind_eq_ok_iff.1 h
    rw [List.filterMap_cons]
    rcases onMessage_eq_ok ht with ⟨hnone, rfl⟩ | ⟨peer, hpeer, hself, hhandle⟩
    · rw [hnone]
      exact ih hrest
    · rw [hpeer]
      by_cases htouches : peer.state ≠ .gone ∨
          ∃ p ∈ s.discoveredPeers, p.deviceId = peer.deviceId
      · -- the list is made here, and kept by the rest
        have hmade := availableDevices_of_touches hself hhandle htouches
        exact ⟨fun _ => handle_keeps_list hmade hrest, fun hno =>
          absurd ⟨peer, List.mem_cons_self, htouches⟩ hno⟩
      · simp only [not_or, not_not, not_exists, not_and] at htouches
        have hnothing : s.onPeer lib peer ⟨now, now, now⟩ = .ok s :=
          onPeer_gone_of_unknown hself htouches.1 htouches.2
        obtain rfl := Except.ok.inj (hnothing.symm.trans hhandle)
        have hcons : Touches s (peer :: msgs.filterMap (acceptedPeer lib s.selfPeer.deviceId)) ↔
            Touches s (msgs.filterMap (acceptedPeer lib s.selfPeer.deviceId)) := by
          rw [Touches, Touches, List.exists_mem_cons_iff]
          apply or_iff_right
          simp only [not_or, not_not, not_exists, not_and]
          exact htouches
        rw [hcons]
        exact ih hrest

/-! ## Orders -/

/-- An accepted peer has the state that was decoded. -/
theorem state_of_acceptedPeer {selfId : StdString} {msg : Message} {peer decoded : DiscoveryPeer}
    (h : acceptedPeer lib selfId msg = some peer)
    (hdecode : DiscoveryPeer.decode lib msg.payload = .ok decoded) :
    peer.state = decoded.state := by
  simp only [acceptedPeer, hdecode] at h
  obtain ⟨-, h⟩ := Option.ite_none_left_eq_some.1 h
  rw [← Option.some.inj h]

/-- The accepted peers with a device id are those of the datagrams with it. -/
theorem filter_accepted (selfId id : StdString) :
    ((msgs.filterMap (acceptedPeer lib selfId)).filter fun p => p.deviceId = id) =
      (msgs.filter fun msg => deviceIdOf lib msg = some id).filterMap
        (acceptedPeer lib selfId) := by
  rw [List.filter_filterMap, List.filterMap_filter]
  refine congrArg (fun f => msgs.filterMap f) (funext fun msg => ?_)
  cases hpeer : acceptedPeer lib selfId msg with
  | none => simp
  | some peer =>
    obtain ⟨decoded, hdecode, hid⟩ := decode_of_acceptedPeer hpeer
    have hof : deviceIdOf lib msg = some peer.deviceId := by
      rw [deviceIdOf, hdecode, hid]
      rfl
    rw [hof, Option.filter_some]
    simp only [Option.some.injEq]

/-- A datagram that is not of a peer that has gone, handled twice, leaves the table that it leaves
when it is handled once. -/
theorem handle_twice {msg : Message} {peer : DiscoveryPeer} {u u' : DiscoveryService}
    (hT : Represents table s) (hdecode : DiscoveryPeer.decode lib msg.payload = .ok peer)
    (hgone : peer.state ≠ .gone) (hu : s.handle lib now [msg] = .ok u)
    (hu' : s.handle lib now [msg, msg] = .ok u') :
    u'.discoveredPeers = u.discoveredPeers ∧
      u'.peerLastSeenTimestamps = u.peerLastSeenTimestamps := by
  obtain ⟨-, hTu⟩ := hT.handle hu
  obtain ⟨-, hTu'⟩ := hT.handle hu'
  have htwice : table.replay isSeen (isStale now) now
      ([msg, msg].filterMap (acceptedPeer lib s.selfPeer.deviceId)) =
      table.replay isSeen (isStale now) now
        ([msg].filterMap (acceptedPeer lib s.selfPeer.deviceId)) := by
    cases haccepted : acceptedPeer lib s.selfPeer.deviceId msg with
    | none => simp [haccepted]
    | some accepted =>
      have hseen : isSeen accepted := by
        rw [isSeen, state_of_acceptedPeer haccepted hdecode]
        exact decide_eq_true hgone
      simp only [List.filterMap_cons_some haccepted, List.filterMap_nil]
      exact TimedTable.write_idem (isStale_self now) hseen
  rw [htwice] at hTu'
  exact ⟨hTu'.1.trans hTu.1.symm, hTu'.2.trans hTu.2.symm⟩

end DiscoveryService

open DiscoveryService in
/-- Discovery does not depend on the order in which devices are heard. In any state of the service
whose vectors are the columns of a table, take two lists of datagrams that have the same
datagrams of each device id in the same order. Handled at one reading of the clock, both leave the
same entry for each device id, and the same candidates up to their order; and a datagram that does
not say that its device has gone may as well be handled twice. While the own state encodes,
datagrams that decode are always handled. -/
theorem heard_in_any_order {lib : Nlohmann} {s : DiscoveryService} {table : PeerTable}
    (hT : Represents table s) (now : UInt64) {msgs msgs' : List Message}
    (hsame : ∀ id, (msgs.filter fun msg => deviceIdOf lib msg = some id) =
      msgs'.filter fun msg => deviceIdOf lib msg = some id) :
    (∀ t t', s.handle lib now msgs = .ok t → s.handle lib now msgs' = .ok t' →
      (∀ id, t.entryOf id = t'.entryOf id) ∧ t.availableDevices.Perm t'.availableDevices) ∧
    (∀ msg peer u u', DiscoveryPeer.decode lib msg.payload = .ok peer → peer.state ≠ .gone →
      s.handle lib now [msg] = .ok u → s.handle lib now [msg, msg] = .ok u' →
      u'.discoveredPeers = u.discoveredPeers ∧
        u'.peerLastSeenTimestamps = u.peerLastSeenTimestamps) ∧
    ∀ own, s.selfPeer.encode lib = .ok own → ∀ msgs : List Message,
      (∀ msg ∈ msgs, (deviceIdOf lib msg).isSome) → ∃ t, s.handle lib now msgs = .ok t := by
  refine ⟨fun t t' ht ht' => ?_, fun msg peer u u' hdecode hgone => handle_twice hT hdecode hgone,
    fun own hown msgs hwell => handle_ok hT hown hwell⟩
  obtain ⟨-, hTt⟩ := hT.handle ht
  obtain ⟨-, hTt'⟩ := hT.handle ht'
  -- the accepted peers of each device are the same, so the tables have the same entries
  have haccepted : ∀ id, ((msgs.filterMap (acceptedPeer lib s.selfPeer.deviceId)).filter
      fun p => p.deviceId = id) = (msgs'.filterMap (acceptedPeer lib s.selfPeer.deviceId)).filter
      fun p => p.deviceId = id := fun id => by
    rw [filter_accepted, hsame, filter_accepted]
  have hmem : ∀ e, e ∈ (table.replay isSeen (isStale now) now
        (msgs.filterMap (acceptedPeer lib s.selfPeer.deviceId))).entries ↔
      e ∈ (table.replay isSeen (isStale now) now
        (msgs'.filterMap (acceptedPeer lib s.selfPeer.deviceId))).entries := fun e =>
    TimedTable.mem_replay_congr (isStale_self now) haccepted
  refine ⟨fun id => Option.ext fun e => ?_, ?_⟩
  · rw [hTt.entryOf_eq_some_iff, hTt'.entryOf_eq_some_iff, hmem]
  · obtain ⟨hmade, hnothing⟩ := handle_list ht
    obtain ⟨hmade', hnothing'⟩ := handle_list ht'
    have htouches : Touches s (msgs.filterMap (acceptedPeer lib s.selfPeer.deviceId)) ↔
        Touches s (msgs'.filterMap (acceptedPeer lib s.selfPeer.deviceId)) :=
      exists_congr fun peer => and_congr_left' (TimedTable.mem_iff_of_filter_eq haccepted)
    by_cases htouch : Touches s (msgs.filterMap (acceptedPeer lib s.selfPeer.deviceId))
    · -- both made the list again, from the same peers
      rw [hmade htouch, hmade' (htouches.1 htouch), hTt.1, hTt'.1]
      exact (((TimedTable.entries_perm hmem).map _).filter _).map _
    · rw [hnothing htouch, hnothing' (mt htouches.2 htouch)]

/-- A datagram of a peer, by its id and the last part of its address. -/
def DiscoveryService.heard (id address : String) : Message :=
  ⟨⟨.ofString ("10.0.0." ++ address)⟩, .self, .ofString ("\x7b\"device_id\":\"" ++ id ++ "\"\x7d")⟩

open DiscoveryService in
/-- Two devices that are heard in either order are listed in different orders. -/
theorem heard_in_any_order_two : ∃ s₀ t t',
    init JsonText.nlohmann (.ofString "a") [] [] 0 0 = .ok s₀ ∧
      s₀.handle JsonText.nlohmann 5 [heard "b" "2", heard "c" "3"] = .ok t ∧
      s₀.handle JsonText.nlohmann 5 [heard "c" "3", heard "b" "2"] = .ok t' ∧
      t.availableDevices ≠ t'.availableDevices ∧
      t.availableDevices.Perm t'.availableDevices := by
  have hrun : ∃ s₀ ∈ (init JsonText.nlohmann (.ofString "a") [] [] 0 0).toOption,
      ∃ t ∈ (s₀.handle JsonText.nlohmann 5 [heard "b" "2", heard "c" "3"]).toOption,
      ∃ t' ∈ (s₀.handle JsonText.nlohmann 5 [heard "c" "3", heard "b" "2"]).toOption,
      t.availableDevices ≠ t'.availableDevices := by
    decide +kernel
  obtain ⟨s₀, hs₀, t, ht, t', ht', hne⟩ := hrun
  have hinit : init JsonText.nlohmann (.ofString "a") [] [] 0 0 = .ok s₀ :=
    Except.eq_ok_of_toOption hs₀
  have ht := Except.eq_ok_of_toOption ht
  have ht' := Except.eq_ok_of_toOption ht'
  have hb : deviceIdOf JsonText.nlohmann (heard "b" "2") = some (.ofString "b") := by
    decide +kernel
  have hc : deviceIdOf JsonText.nlohmann (heard "c" "3") = some (.ofString "c") := by
    decide +kernel
  have hsame : ∀ id, ([heard "b" "2", heard "c" "3"].filter fun msg =>
        deviceIdOf JsonText.nlohmann msg = some id) =
      [heard "c" "3", heard "b" "2"].filter fun msg =>
        deviceIdOf JsonText.nlohmann msg = some id := by
    intro id
    simp only [List.filter_cons, List.filter_nil, hb, hc, Option.some.injEq]
    by_cases hid : StdString.ofString "b" = id
    · subst hid
      rfl
    · simp [hid]
  obtain ⟨horder, -⟩ := heard_in_any_order (init_spec hinit).1 5 hsame
  exact ⟨s₀, t, t', hinit, ht, ht', hne, (horder t t' ht ht').2⟩

end Keyleport
