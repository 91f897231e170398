import Keyleport.Discovery.Table

/-!
# The candidates and their addresses

The list of devices in the store has one candidate for each known peer. A peer is known by its
device id, and its address is that of its latest datagram; so two peers may be known under one
address, as when a program is started again and comes back with a new id.

* `candidates_mirror_table`: the list after every step, also after those that do not make it again.
* `DiscoveryService.Collides`: a datagram arrives from an address under which another peer is
  known.
* `DiscoveryService.distinct_onMessage_iff`: what a datagram does to the addresses.
* `candidate_addresses_iff`: in a run, no address is ever listed twice if and only if no datagram
  collides.
* `restarted_peer_listed_twice`: a peer that comes back with a new id.
-/

namespace Keyleport

namespace DiscoveryService

variable {lib : Nlohmann} {s s' : DiscoveryService} {table : PeerTable}

/-- The candidate of a peer. -/
def candidateOf (p : DiscoveryPeer) : ConnectionCandidate :=
  ⟨p.state = .busy, p.deviceName, p.ipAddress, defaultPeerPort⟩

/-- The candidates of a list of peers, as `update_connection_candidates` makes them. -/
def candidatesOf (peers : List DiscoveryPeer) : List ConnectionCandidate :=
  (peers.filter fun p => p.ipAddress ≠ selfIpAddress).map candidateOf

/-- A datagram that is accepted, is not gone and is recorded, from an address under which a peer
with another device id is known that is not stale. -/
def Collides (lib : Nlohmann) (s : DiscoveryService) (msg : Message) (clock : MessageClock) :
    Prop :=
  ∃ peer, acceptedPeer lib s.selfPeer.deviceId msg = some peer ∧ peer.state ≠ .gone ∧
    isStale clock.stale clock.seen = false ∧
    ∃ e ∈ s.discoveredPeers.zip s.peerLastSeenTimestamps, isStale clock.stale e.2 = false ∧
      e.1.deviceId ≠ peer.deviceId ∧ e.1.ipAddress = peer.ipAddress

/-- No two known peers have one address. -/
def Distinct (s : DiscoveryService) : Prop :=
  (s.discoveredPeers.map DiscoveryPeer.ipAddress).Nodup

/-! ## The table -/

/-- The entries of the table are the pairs of the two vectors. -/
theorem Represents.zip_eq (h : Represents table s) :
    s.discoveredPeers.zip s.peerLastSeenTimestamps = table.entries := by
  rw [h.1, h.2, List.zip_map']
  exact List.map_id _

theorem Represents.distinct_iff (h : Represents table s) : Distinct s ↔
    ∀ e ∈ table.entries, ∀ e' ∈ table.entries, e.1.ipAddress = e'.1.ipAddress → e = e' := by
  rw [Distinct, h.1, List.map_map]
  exact TimedTable.nodup_map_iff

/-- A table that only lost entries has no new addresses. -/
theorem Represents.distinct_of_subset {table' : PeerTable} (h : Represents table s)
    (h' : Represents table' s') (hsub : ∀ e ∈ table'.entries, e ∈ table.entries)
    (hs : Distinct s) : Distinct s' := by
  rw [h'.distinct_iff]
  intro e he e' he' hip
  exact h.distinct_iff.1 hs e (hsub e he) e' (hsub e' he') hip

/-- If all addresses are distinct before a datagram is handled, then they are afterwards if and
only if it does not collide. -/
theorem distinct_onMessage_iff {msg : Message} {clock : MessageClock} (hT : Represents table s)
    (hs : Distinct s) (h : s.onMessage lib msg clock = .ok s') :
    Distinct s' ↔ ¬ Collides lib s msg clock := by
  rcases onMessage_eq_ok h with ⟨hnone, rfl⟩ | ⟨peer, hpeer, hself, hhandle⟩
  · -- a dropped datagram
    refine iff_of_true hs ?_
    rintro ⟨peer, hpeer, -⟩
    rw [hnone] at hpeer
    cases hpeer
  · by_cases hgone : peer.state = .gone
    · -- an entry may be removed
      obtain ⟨-, hT', -⟩ := onPeer_gone hT hself hgone hhandle
      refine iff_of_true
        (hT.distinct_of_subset hT' (fun e he => (TimedTable.mem_remove.1 he).1) hs) ?_
      rintro ⟨peer', hpeer', hstate, -⟩
      obtain rfl := Option.some.inj (hpeer.symm.trans hpeer')
      exact hstate hgone
    · obtain ⟨-, hT', -⟩ := onPeer_seen hT hself hgone hhandle
      rw [hT'.distinct_iff]
      constructor
      · rintro hinj ⟨peer', hpeer', -, hfresh, e, he, hfresh', hid, hip⟩
        obtain rfl := Option.some.inj (hpeer.symm.trans hpeer')
        rw [hT.zip_eq] at he
        -- both entries are in the table afterwards
        have hnew : (peer, clock.seen) ∈ (table.upsert peer clock.seen).entries :=
          TimedTable.mem_upsert.2 (Or.inl rfl)
        have hold : e ∈ (table.upsert peer clock.seen).entries :=
          TimedTable.mem_upsert.2 (Or.inr ⟨he, hid⟩)
        have heq := hinj _ (TimedTable.mem_expire.2 ⟨hold, hfresh'⟩) _
          (TimedTable.mem_expire.2 ⟨hnew, hfresh⟩) hip
        exact hid (congrArg (fun e => e.1.deviceId) heq)
      · intro hno
        have hother : ∀ e ∈ table.entries, isStale clock.stale e.2 = false →
            isStale clock.stale clock.seen = false → e.1.deviceId ≠ peer.deviceId →
            e.1.ipAddress ≠ peer.ipAddress := fun e he hfresh' hfresh hid hip =>
          hno ⟨peer, hpeer, hgone, hfresh, e, hT.zip_eq ▸ he, hfresh', hid, hip⟩
        intro e he e' he' hip
        obtain ⟨he, hfresh⟩ := TimedTable.mem_expire.1 he
        obtain ⟨he', hfresh'⟩ := TimedTable.mem_expire.1 he'
        rcases TimedTable.mem_upsert.1 he with rfl | ⟨he, hid⟩
        · rcases TimedTable.mem_upsert.1 he' with rfl | ⟨he', hid'⟩
          · rfl
          · exact absurd hip.symm (hother e' he' hfresh' hfresh hid')
        · rcases TimedTable.mem_upsert.1 he' with rfl | ⟨he', -⟩
          · exact absurd hip (hother e he hfresh hfresh' hid)
          · exact hT.distinct_iff.1 hs e he e' he' hip

/-! ## The list of devices -/

/-- A search finds exactly the known peers. -/
theorem removePeerByDeviceId_fst {deviceId : StdString} :
    (s.removePeerByDeviceId deviceId).1 = true ↔
      ∃ p ∈ s.discoveredPeers, p.deviceId = deviceId := by
  have hfind := @List.findIdx?_isSome _ s.discoveredPeers fun p => decide (p.deviceId = deviceId)
  rw [removePeerByDeviceId]
  cases h : s.discoveredPeers.findIdx? fun p => p.deviceId = deviceId with
  | none =>
    rw [h] at hfind
    simpa using hfind
  | some i =>
    rw [h] at hfind
    simpa using hfind

/-- A peer that has gone and is not known changes nothing. -/
theorem onPeer_gone_of_unknown {peer : DiscoveryPeer} {clock : MessageClock}
    (hself : isSelf s.selfPeer.deviceId peer = false) (hgone : peer.state = .gone)
    (hunknown : ∀ p ∈ s.discoveredPeers, p.deviceId ≠ peer.deviceId) :
    s.onPeer lib peer clock = .ok s := by
  have hfind : (s.discoveredPeers.findIdx? fun p => p.deviceId = peer.deviceId) = none :=
    List.findIdx?_eq_none_iff.2 fun p hp => decide_eq_false (hunknown p hp)
  rw [onPeer, hself, if_neg Bool.false_ne_true, if_pos hgone, removePeerByDeviceId, hfind]
  rfl

/-- A peer that has not gone, or is known, has the list made again. -/
theorem availableDevices_of_touches {peer : DiscoveryPeer} {clock : MessageClock}
    (hself : isSelf s.selfPeer.deviceId peer = false) (h : s.onPeer lib peer clock = .ok s')
    (htouches : peer.state ≠ .gone ∨ ∃ p ∈ s.discoveredPeers, p.deviceId = peer.deviceId) :
    s'.availableDevices = candidatesOf s'.discoveredPeers := by
  rcases onPeer_cases hself h with
    ⟨hgone, removed, t, hremove, rfl⟩ | ⟨-, isNew, t, -, ⟨-, rfl⟩ | ⟨-, hanswer⟩⟩
  · have hremoved := removePeerByDeviceId_fst.2 (htouches.resolve_left (not_not.2 hgone))
    rw [hremove] at hremoved
    subst hremoved
    rfl
  · rfl
  · -- the answer to a new peer does not touch the list
    obtain ⟨time, new, rfl, -⟩ := broadcastOwnState_eq_ok hanswer
    rfl

/-- A peer that is handled has the list made again, or changes nothing. -/
theorem availableDevices_onPeer {peer : DiscoveryPeer} {clock : MessageClock}
    (hself : isSelf s.selfPeer.deviceId peer = false) (h : s.onPeer lib peer clock = .ok s') :
    s'.availableDevices = candidatesOf s'.discoveredPeers ∨ s' = s := by
  by_cases htouches : peer.state ≠ .gone ∨ ∃ p ∈ s.discoveredPeers, p.deviceId = peer.deviceId
  · exact Or.inl (availableDevices_of_touches hself h htouches)
  · simp only [not_or, not_not, not_exists, not_and] at htouches
    have hnothing : s.onPeer lib peer clock = .ok s :=
      onPeer_gone_of_unknown hself htouches.1 htouches.2
    exact Or.inr (Except.ok.inj (h.symm.trans hnothing))

/-- A cleanup leaves the list as it is. -/
theorem availableDevices_cleanup {now : UInt64} (h : s.cleanup lib now = .ok s') :
    s'.availableDevices = s.availableDevices := by
  rw [cleanup] at h
  split at h
  next =>
    obtain ⟨t, ht, h⟩ := Except.bind_eq_ok_iff.1 h
    obtain rfl := Except.ok.inj h
    obtain ⟨time, new, rfl, -⟩ := broadcastOwnState_eq_ok ht
    rfl
  next =>
    obtain rfl := Except.ok.inj h
    rfl

/-- A step has the list made again or leaves it as it is; the latter only if it changes nothing,
or stops the service. -/
theorem availableDevices_step {l : Step} (h : step lib s l = some s') :
    s'.availableDevices = candidatesOf s'.discoveredPeers ∨
      s'.availableDevices = s.availableDevices ∧ (s' = s ∨ s'.broadcastServer = false) := by
  cases l with
  | message msg clock =>
    rcases onMessage_eq_ok (message_of_step h).2 with ⟨-, rfl⟩ | ⟨peer, -, hself, hhandle⟩
    · exact Or.inr ⟨rfl, Or.inl rfl⟩
    · rcases availableDevices_onPeer hself hhandle with hmade | rfl
      · exact Or.inl hmade
      · exact Or.inr ⟨rfl, Or.inl rfl⟩
  | update broadcast stale =>
    obtain ⟨t, -, h⟩ := Except.bind_eq_ok_iff.1 (Except.eq_ok_of_toOption h)
    obtain rfl := Except.ok.inj h
    exact Or.inl rfl
  | cleanup now =>
    have h := Except.eq_ok_of_toOption h
    exact Or.inr ⟨availableDevices_cleanup h, Or.inr (cleanup_spec h).2.2⟩

theorem availableDevices_init {deviceId deviceName platform : StdString} {first second : UInt64}
    (h : init lib deviceId deviceName platform first second = .ok s) :
    s.availableDevices = [] ∧ s.discoveredPeers = [] := by
  obtain ⟨t, ht, h⟩ := Except.bind_eq_ok_iff.1 h
  obtain ⟨time, new, rfl, -⟩ := broadcastOwnState_eq_ok ht
  obtain ⟨time', new', rfl, -⟩ := broadcastOwnState_eq_ok h
  exact ⟨rfl, rfl⟩

/-! ## Runs -/

variable {s₀ : DiscoveryService} {ls : List Step}

/-- While the service runs, the list holds the candidates of the known peers. -/
theorem availableDevices_of_run (h₀ : s₀.availableDevices = candidatesOf s₀.discoveredPeers)
    (h : (machine lib).run s₀ ls = some s) (hserver : s.broadcastServer = true) :
    s.availableDevices = candidatesOf s.discoveredPeers := by
  revert hserver
  refine Machine.run_invariant (I := fun s => s.broadcastServer = true →
    s.availableDevices = candidatesOf s.discoveredPeers) ?_ (fun _ => h₀) h
  intro t l t' ht hstep hserver
  rcases availableDevices_step hstep with hmade | ⟨-, rfl | hstopped⟩
  · exact hmade
  · exact ht hserver
  · rw [hstopped] at hserver
    cases hserver

/-- A run without a cleanup leaves the server as it was. -/
theorem broadcastServer_of_run (hls : ∀ now, Step.cleanup now ∉ ls)
    (h : (machine lib).run s₀ ls = some s) : s.broadcastServer = s₀.broadcastServer := by
  have hl : ∀ l ∈ ls, ∀ now, l ≠ Step.cleanup now := fun l hl now heq => hls now (heq ▸ hl)
  refine Machine.run_invariant_of_forall (I := fun s => s.broadcastServer = s₀.broadcastServer)
    (fun t l t' hl ht hstep => ?_) hl rfl h
  exact (says_of_step hl hstep).broadcastServer.trans ht

/-- The candidates of peers of which none has the loopback address. -/
theorem candidatesOf_eq {peers : List DiscoveryPeer}
    (h : ∀ p ∈ peers, p.ipAddress ≠ selfIpAddress) :
    candidatesOf peers = peers.map candidateOf := by
  rw [candidatesOf, List.filter_eq_self.2 fun p hp => decide_eq_true (h p hp)]

theorem TableInvariant.candidatesOf_eq (hI : TableInvariant lib ls s table) :
    candidatesOf s.discoveredPeers = s.discoveredPeers.map candidateOf := by
  refine DiscoveryService.candidatesOf_eq fun p hp => ?_
  rw [hI.represents.1] at hp
  obtain ⟨e, he, rfl⟩ := List.mem_map.1 hp
  exact (hI.admissible e he).2.1

/-- The addresses of the candidates are those of the known peers. -/
theorem TableInvariant.distinct_iff (hI : TableInvariant lib ls s table)
    (hlist : s.availableDevices = candidatesOf s.discoveredPeers) :
    (s.availableDevices.map ConnectionCandidate.ip).Nodup ↔ Distinct s := by
  rw [hlist, hI.candidatesOf_eq, List.map_map]
  rfl

/-- A step that is no datagram only drops entries of the table. -/
theorem distinct_of_step {l : Step} (hI : TableInvariant lib ls s table)
    (hl : ∀ msg clock, l ≠ .message msg clock) (hs : Distinct s) (h : step lib s l = some s') :
    Distinct s' := by
  cases l with
  | message msg clock => exact absurd rfl (hl msg clock)
  | update broadcast stale =>
    obtain ⟨-, hT, -⟩ := update_spec hI.represents (Except.eq_ok_of_toOption h)
    exact hI.represents.distinct_of_subset hT (fun e he => (TimedTable.mem_expire.1 he).1) hs
  | cleanup now =>
    obtain ⟨hT, -, -⟩ := cleanup_spec (Except.eq_ok_of_toOption h)
    exact hI.represents.distinct_of_subset hT nofun hs

end DiscoveryService

open DiscoveryService in
/-- The candidates mirror the table. After `init` and any datagrams and updates of the service, with
any clock, the list of devices has one candidate for each known peer, in the order of the table,
with its state, name and address as they are in the table. -/
theorem candidates_mirror_table {lib : Nlohmann} {deviceId deviceName platform : StdString}
    {first second : UInt64} {s₀ s : DiscoveryService} {ls : List Step}
    (hinit : init lib deviceId deviceName platform first second = .ok s₀)
    (hls : ∀ now, Step.cleanup now ∉ ls) (h : (machine lib).run s₀ ls = some s) :
    s.availableDevices = s.discoveredPeers.map fun p =>
      ⟨p.state = .busy, p.deviceName, p.ipAddress, .ofString "8800"⟩ := by
  obtain ⟨hempty, hpeers⟩ := availableDevices_init hinit
  obtain ⟨-, -, -, hserver₀, -⟩ := init_spec hinit
  have hserver : s.broadcastServer = true := (broadcastServer_of_run hls h).trans hserver₀
  -- while the server is there, every change of the table makes the list again
  have hlist : s.availableDevices = candidatesOf s.discoveredPeers :=
    availableDevices_of_run (by rw [hempty, hpeers]; rfl) h hserver
  -- and no peer is left out, as none has the loopback address
  obtain ⟨table, hI⟩ := TableInvariant.run (.init hinit) h
  rw [hlist, hI.candidatesOf_eq]
  rfl

/-- Peers `b` and `c` are seen, an unknown peer goes, and `b` is busy. -/
def DiscoveryService.seenAndBusy : List DiscoveryService.Step :=
  [.message ⟨⟨.ofString "10.0.0.2"⟩, .self, .ofString "\x7b\"device_id\":\"b\"\x7d"⟩ ⟨1, 1, 1⟩,
    .message ⟨⟨.ofString "10.0.0.3"⟩, .self, .ofString "\x7b\"device_id\":\"c\"\x7d"⟩ ⟨2, 2, 2⟩,
    .message ⟨⟨.ofString "10.0.0.4"⟩, .self, .ofString
      "\x7b\"device_id\":\"d\",\"state\":2\x7d"⟩ ⟨3, 3, 3⟩,
    .message ⟨⟨.ofString "10.0.0.2"⟩, .self, .ofString
      "\x7b\"device_id\":\"b\",\"state\":1\x7d"⟩ ⟨4, 4, 4⟩]

open DiscoveryService in
/-- After this run two candidates are listed, and the first is busy. -/
theorem candidates_mirror_table_busy : ∃ s₀ s,
    init JsonText.nlohmann (.ofString "a") [] [] 0 0 = .ok s₀ ∧
      (machine JsonText.nlohmann).run s₀ seenAndBusy = some s ∧
      s.availableDevices.map ConnectionCandidate.isBusy = [true, false] ∧
      s.availableDevices = s.discoveredPeers.map fun p =>
        ⟨p.state = .busy, p.deviceName, p.ipAddress, .ofString "8800"⟩ := by
  have hrun : ∃ s₀ ∈ (init JsonText.nlohmann (.ofString "a") [] [] 0 0).toOption,
      ∃ s ∈ (machine JsonText.nlohmann).run s₀ seenAndBusy,
      s.availableDevices.map ConnectionCandidate.isBusy = [true, false] := by
    decide +kernel
  obtain ⟨s₀, hs₀, s, hs, hbusy⟩ := hrun
  have hinit : init JsonText.nlohmann (.ofString "a") [] [] 0 0 = .ok s₀ :=
    Except.eq_ok_of_toOption hs₀
  have hls : ∀ now, Step.cleanup now ∉ seenAndBusy := by simp [seenAndBusy]
  exact ⟨s₀, s, hinit, hs, hbusy, candidates_mirror_table hinit hls hs⟩

open DiscoveryService in
/-- The addresses of the candidates. After any run of the service, with any clock, the candidates
listed are those of the peers known in a state of the run, while the service runs in this one, and
the device ids of these peers are distinct. The addresses are distinct in every state of the run if
and only if no datagram of the run that is recorded came from an address under which a peer with
another device id was known and not stale. -/
theorem candidate_addresses_iff {lib : Nlohmann} {deviceId deviceName platform : StdString}
    {first second : UInt64} {s₀ s : DiscoveryService} {ls : List Step}
    (hinit : init lib deviceId deviceName platform first second = .ok s₀)
    (h : (machine lib).run s₀ ls = some s) :
    (∃ ls' t, ls' <+: ls ∧ (machine lib).run s₀ ls' = some t ∧
      (t.discoveredPeers.map DiscoveryPeer.deviceId).Nodup ∧
      s.availableDevices = t.discoveredPeers.map candidateOf) ∧
    (s.broadcastServer = true → (s.discoveredPeers.map DiscoveryPeer.deviceId).Nodup ∧
      s.availableDevices = s.discoveredPeers.map candidateOf) ∧
    ((∀ ls' t, ls' <+: ls → (machine lib).run s₀ ls' = some t →
        (t.availableDevices.map ConnectionCandidate.ip).Nodup) ↔
      ∀ ls' msg clock t, ls' ++ [.message msg clock] <+: ls →
        (machine lib).run s₀ ls' = some t → ¬ Collides lib t msg clock) := by
  obtain ⟨hempty, hpeers⟩ := availableDevices_init hinit
  have hinv : ∀ ls' t, (machine lib).run s₀ ls' = some t →
      ∃ table, TableInvariant lib ls' t table := fun ls' t ht =>
    TableInvariant.run (.init hinit) ht
  have hnodup : ∀ ls' t, (machine lib).run s₀ ls' = some t →
      (t.discoveredPeers.map DiscoveryPeer.deviceId).Nodup := by
    intro ls' t ht
    obtain ⟨table, hI⟩ := hinv ls' t ht
    rw [hI.represents.1, List.map_map]
    exact table.nodup
  have hlist : ∀ ls' t, (machine lib).run s₀ ls' = some t → t.broadcastServer = true →
      t.availableDevices = candidatesOf t.discoveredPeers := fun ls' t ht =>
    availableDevices_of_run (by rw [hempty, hpeers]; rfl) ht
  refine ⟨?_, fun hserver => ?_, ?_, ?_⟩
  · -- a list that is made again has the known peers; otherwise it is an earlier one
    refine Machine.run_induction (motive := fun ls s => ∃ ls' t, ls' <+: ls ∧
      (machine lib).run s₀ ls' = some t ∧ (t.discoveredPeers.map DiscoveryPeer.deviceId).Nodup ∧
      s.availableDevices = t.discoveredPeers.map candidateOf) ?_ ?_ h
    · refine ⟨[], s₀, List.prefix_rfl, rfl, hnodup [] s₀ rfl, ?_⟩
      rw [hempty, hpeers]
      rfl
    · intro ls t l t' ht ⟨ls', u, hpre, hu, hdistinct, hu'⟩ hstep
      rcases availableDevices_step hstep with hmade | ⟨hsame, -⟩
      · have ht' := Machine.run_concat_eq_some.2 ⟨t, ht, hstep⟩
        obtain ⟨table, hI⟩ := hinv _ t' ht'
        exact ⟨ls ++ [l], t', List.prefix_rfl, ht', hnodup _ t' ht',
          hmade.trans hI.candidatesOf_eq⟩
      · exact ⟨ls', u, hpre.trans (List.prefix_append _ _), hu, hdistinct, hsame.trans hu'⟩
  · obtain ⟨table, hI⟩ := hinv ls s h
    exact ⟨hnodup ls s h, (hlist ls s h hserver).trans hI.candidatesOf_eq⟩
  · intro hdistinct ls' msg clock t hpre ht
    obtain ⟨t', hstep, ht'⟩ := Machine.step_of_prefix h hpre ht
    have hbefore := hdistinct ls' t ((List.prefix_append _ _).trans hpre) ht
    have hafter := hdistinct _ t' hpre ht'
    obtain ⟨table, hI⟩ := hinv ls' t ht
    obtain ⟨table', hI'⟩ := hinv _ t' ht'
    have hstep : step lib t (.message msg clock) = some t' := hstep
    obtain ⟨hserver, hmessage⟩ := message_of_step hstep
    have hserver' : t'.broadcastServer = true :=
      (says_of_step (fun _ => Step.noConfusion) hstep).broadcastServer.trans hserver
    rw [hI.distinct_iff (hlist ls' t ht hserver)] at hbefore
    rw [hI'.distinct_iff (hlist _ t' ht' hserver')] at hafter
    exact (distinct_onMessage_iff hI.represents hbefore hmessage).1 hafter
  · intro hnone ls' t hpre ht
    refine And.left (b := Distinct t) ?_
    revert hpre
    refine Machine.run_induction (motive := fun ls' t => ls' <+: ls →
      (t.availableDevices.map ConnectionCandidate.ip).Nodup ∧ Distinct t) (fun _ => ?_) ?_ ht
    · rw [Distinct, hempty, hpeers]
      exact ⟨List.nodup_nil, List.nodup_nil⟩
    · intro ls' t l t' ht ih hstep hpre
      obtain ⟨hips, hdistinct⟩ := ih ((List.prefix_append _ _).trans hpre)
      obtain ⟨table, hI⟩ := hinv ls' t ht
      obtain ⟨table', hI'⟩ := hinv _ t' (Machine.run_concat_eq_some.2 ⟨t, ht, hstep⟩)
      have hdistinct' : Distinct t' := by
        by_cases hl : ∃ msg clock, l = .message msg clock
        · obtain ⟨msg, clock, rfl⟩ := hl
          exact (distinct_onMessage_iff hI.represents hdistinct (message_of_step hstep).2).2
            (hnone ls' msg clock t hpre ht)
        · exact distinct_of_step hI (fun msg clock heq => hl ⟨msg, clock, heq⟩) hdistinct hstep
      rcases availableDevices_step hstep with hmade | ⟨hsame, -⟩
      · exact ⟨(hI'.distinct_iff hmade).2 hdistinct', hdistinct'⟩
      · rw [hsame]
        exact ⟨hips, hdistinct'⟩

/-- Peer `b` of the address 10.0.0.2 is known, and the program there comes back as `c`. -/
def DiscoveryService.seenAndRestarted : List DiscoveryService.Step :=
  [.message ⟨⟨.ofString "10.0.0.2"⟩, .self, .ofString "\x7b\"device_id\":\"b\"\x7d"⟩ ⟨1, 1, 1⟩,
    .message ⟨⟨.ofString "10.0.0.2"⟩, .self, .ofString "\x7b\"device_id\":\"c\"\x7d"⟩ ⟨2, 2, 2⟩]

open DiscoveryService in
/-- In this run a datagram collides, and the two candidates are those of two device ids. -/
theorem candidate_addresses_iff_restarted : ∃ s₀ s,
    init JsonText.nlohmann (.ofString "a") [] [] 0 0 = .ok s₀ ∧
    (machine JsonText.nlohmann).run s₀ seenAndRestarted = some s ∧
    s.availableDevices.map ConnectionCandidate.ip = [.ofString "10.0.0.2", .ofString "10.0.0.2"] ∧
    s.availableDevices = s.discoveredPeers.map candidateOf ∧
    ∃ ls' msg clock t, ls' ++ [.message msg clock] <+: seenAndRestarted ∧
      (machine JsonText.nlohmann).run s₀ ls' = some t ∧
      Collides JsonText.nlohmann t msg clock := by
  have hrun : ∃ s₀ ∈ (init JsonText.nlohmann (.ofString "a") [] [] 0 0).toOption,
      ∃ s ∈ (machine JsonText.nlohmann).run s₀ seenAndRestarted, s.broadcastServer = true ∧
      s.availableDevices.map ConnectionCandidate.ip =
        [.ofString "10.0.0.2", .ofString "10.0.0.2"] := by
    decide +kernel
  obtain ⟨s₀, hs₀, s, hs, hserver, hips⟩ := hrun
  have hinit : init JsonText.nlohmann (.ofString "a") [] [] 0 0 = .ok s₀ :=
    Except.eq_ok_of_toOption hs₀
  obtain ⟨-, hpeers, hiff⟩ := candidate_addresses_iff hinit hs
  refine ⟨s₀, s, hinit, hs, hips, (hpeers hserver).2, ?_⟩
  by_contra hnone
  have htwice := hiff.2 (fun ls' msg clock t hpre ht hcollides =>
    hnone ⟨ls', msg, clock, t, hpre, ht, hcollides⟩) _ s List.prefix_rfl hs
  rw [hips] at htwice
  exact absurd htwice (by decide)

open DiscoveryService in
/-- A program that is started again, and comes back with a new id within the staleness timeout, is
listed twice under its address. -/
theorem restarted_peer_listed_twice : ¬ ∀ (s₀ s : DiscoveryService) (ls : List Step),
    init JsonText.nlohmann (.ofString "a") [] [] 0 0 = .ok s₀ →
    (machine JsonText.nlohmann).run s₀ ls = some s →
    (s.availableDevices.map ConnectionCandidate.ip).Nodup := by
  intro hdistinct
  have hrun : ∃ s₀ ∈ (init JsonText.nlohmann (.ofString "a") [] [] 0 0).toOption,
      ∃ s ∈ (machine JsonText.nlohmann).run s₀ seenAndRestarted,
      ¬ (s.availableDevices.map ConnectionCandidate.ip).Nodup := by
    decide +kernel
  obtain ⟨s₀, hs₀, s, hs, htwice⟩ := hrun
  exact htwice (hdistinct s₀ s _ (Except.eq_ok_of_toOption hs₀) hs)

end Keyleport
