import Keyleport.Discovery.Candidates
import Keyleport.Discovery.Freshness

/-!
# The list of devices as soft state

Nothing but the datagrams of the last 15 seconds decides which devices are listed. The table only
holds latest messages, and on a clock that does not step back it holds all of them that no call of
`remove_stale_peers` has met as stale.

* `DiscoveryService.Dropped`: the times that such a call has met as stale.
* `DiscoveryService.SoftInvariant`: the table after any steps but a cleanup.
* `DiscoveryService.mem_discoveredPeers_iff`: what is in it after an update.
* `listed_iff_heard`: the devices in the store after an update.
-/

namespace Keyleport

namespace DiscoveryService

variable {lib : Nlohmann} {s s' : DiscoveryService} {table table' : PeerTable}
variable {l : Step} {ls : List Step}

/-- Some reading of the clock has found a time stale. -/
def Dropped (readings : List UInt64) (t : UInt64) : Prop :=
  ∃ now ∈ readings, t ≤ now ∧ isStale now t = true

/-- A time that is fresh at the latest reading has never been stale. -/
theorem not_dropped {rs : List UInt64} {now t : UInt64} (hle : ∀ r ∈ rs, r ≤ now)
    (ht : now.toNat ≤ t.toNat + peerStaleTimeoutMs.toNat) : ¬ Dropped rs t := by
  rintro ⟨r, hr, htr, hstale⟩
  have hfresh : isStale r t = false := by
    rw [isStale_eq_false_iff htr]
    have hlatest := UInt64.le_iff_toNat_le.1 (hle r hr)
    omega
  rw [hfresh] at hstale
  cases hstale

/-- The vectors determine the table. -/
theorem Represents.unique (h : Represents table s) (h' : Represents table' s) : table = table' := by
  have hentries : table.entries = table'.entries := h.zip_eq.symm.trans h'.zip_eq
  cases table
  cases table'
  simpa using hentries

/-- The table holds latest messages, and all of those that are not gone and not dropped. -/
structure SoftInvariant (lib : Nlohmann) (ls : List Step) (s : DiscoveryService)
    (table : PeerTable) : Prop extends TableInvariant lib ls s table where
  covers : table.Covers (fun p => p.state ≠ .gone) (Dropped (readings ls))
    (acceptedLog lib s.selfPeer.deviceId ls)

theorem SoftInvariant.init {deviceId deviceName platform : StdString} {first second : UInt64}
    (h : DiscoveryService.init lib deviceId deviceName platform first second = .ok s) :
    SoftInvariant lib [] s TimedTable.empty :=
  ⟨.init h, TimedTable.covers_nil _⟩

/-- What has been dropped stays dropped. -/
theorem Dropped.append {rs rs' : List UInt64} {t : UInt64} (h : Dropped rs t) :
    Dropped (rs ++ rs') t :=
  let ⟨now, hnow, ht⟩ := h
  ⟨now, List.mem_append_left _ hnow, ht⟩

/-- An entry that a sweep of the step expires has been dropped. -/
theorem dropped_of_stale {selfId : StdString} (hclock : (readings (ls ++ [l])).Pairwise (· ≤ ·))
    {now : UInt64} (hnow : now ∈ l.readings)
    (htracks : table.Tracks (acceptedLog lib selfId (ls ++ [l])))
    (e : DiscoveryPeer × UInt64) (he : e ∈ table.entries) (hstale : isStale now e.2 = true) :
    Dropped (readings (ls ++ [l])) e.2 := by
  have hlog := TimedTable.mem_of_latest (htracks e he)
  have hmem : now ∈ readings (ls ++ [l]) := by
    rw [readings, List.flatMap_append]
    exact List.mem_append_right _ (by simpa using hnow)
  exact ⟨now, hmem, acceptedLog_le_reading hclock hlog hnow, hstale⟩

/-- Every step but a cleanup keeps the invariant. -/
theorem SoftInvariant.step (hI : SoftInvariant lib ls s table)
    (hl : ∀ now, l ≠ .cleanup now) (hclock : (readings (ls ++ [l])).Pairwise (· ≤ ·))
    (h : step lib s l = some s') : ∃ table', SoftInvariant lib (ls ++ [l]) s' table' := by
  obtain ⟨table', hI'⟩ := hI.toTableInvariant.step h
  refine ⟨table', hI', ?_⟩
  have hself := (says_of_step hl h).selfPeer
  have hcovers : table.Covers (fun p => p.state ≠ .gone) (Dropped (readings (ls ++ [l])))
      (acceptedLog lib s.selfPeer.deviceId ls) := by
    refine hI.covers.mono fun t ht => ?_
    rw [readings, List.flatMap_append]
    exact ht.append
  rw [hself]
  cases l with
  | message msg clock =>
    rcases onMessage_eq_ok (message_of_step h).2 with
      ⟨hnone, rfl⟩ | ⟨peer, hpeer, hfilter, hhandle⟩
    · -- a dropped datagram
      have hlog : acceptedLog lib s'.selfPeer.deviceId (ls ++ [.message msg clock]) =
          acceptedLog lib s'.selfPeer.deviceId ls := by
        simp [acceptedLog, List.filterMap_append, Step.accepted, hnone]
      rw [hlog, hI'.represents.unique hI.represents]
      exact hcovers
    · have hlog : acceptedLog lib s.selfPeer.deviceId (ls ++ [.message msg clock]) =
          acceptedLog lib s.selfPeer.deviceId ls ++ [(peer, clock.seen)] := by
        simp [acceptedLog, List.filterMap_append, Step.accepted, hpeer]
      by_cases hgone : peer.state = .gone
      · obtain ⟨-, hT, -⟩ := onPeer_gone hI.represents hfilter hgone hhandle
        rw [hlog, hI'.represents.unique hT]
        exact hcovers.remove (not_not.2 hgone) clock.seen
      · obtain ⟨-, hT, -, -⟩ := onPeer_seen hI.represents hfilter hgone hhandle
        rw [hI'.represents.unique hT]
        refine TimedTable.Covers.expire (hlog ▸ hcovers.upsert peer clock.seen) ?_
        exact dropped_of_stale hclock (by simp [Step.readings])
          (hlog ▸ hI.tracks.upsert peer clock.seen)
  | update broadcast stale =>
    have hlog : acceptedLog lib s.selfPeer.deviceId (ls ++ [.update broadcast stale]) =
        acceptedLog lib s.selfPeer.deviceId ls := by
      simp [acceptedLog, List.filterMap_append, Step.accepted]
    obtain ⟨-, hT, -⟩ := update_spec hI.represents (Except.eq_ok_of_toOption h)
    rw [hI'.represents.unique hT]
    refine TimedTable.Covers.expire (hlog ▸ hcovers) ?_
    exact dropped_of_stale hclock (by simp [Step.readings]) (hlog ▸ hI.tracks)
  | cleanup now => exact absurd rfl (hl now)

theorem SoftInvariant.run {s₀ : DiscoveryService} (hI : SoftInvariant lib [] s₀ TimedTable.empty)
    (hls : ∀ now, Step.cleanup now ∉ ls) (hclock : (readings ls).Pairwise (· ≤ ·))
    (h : (machine lib).run s₀ ls = some s) : ∃ table, SoftInvariant lib ls s table := by
  revert hls hclock
  refine Machine.run_induction (motive := fun ls s => (∀ now, Step.cleanup now ∉ ls) →
    (readings ls).Pairwise (· ≤ ·) → ∃ table, SoftInvariant lib ls s table)
    (fun _ _ => ⟨_, hI⟩) ?_ h
  intro ls t l t' _ ih hstep hls hclock
  have hclock' : (readings ls).Pairwise (· ≤ ·) := by
    rw [readings, List.flatMap_append] at hclock
    exact (List.pairwise_append.1 hclock).1
  obtain ⟨table, hI⟩ := ih (fun now hmem => hls now (List.mem_append_left _ hmem)) hclock'
  exact hI.step (fun now heq => hls now (heq ▸ by simp)) hclock hstep

/-- No reading up to an update is later than the last one of the update. -/
theorem readings_le_stale {broadcast stale : UInt64}
    (hclock : (readings (ls ++ [.update broadcast stale])).Pairwise (· ≤ ·)) :
    ∀ r ∈ readings (ls ++ [.update broadcast stale]), r ≤ stale := by
  have hsplit : readings (ls ++ [.update broadcast stale]) =
      readings ls ++ [broadcast] ++ [stale] := by
    simp [readings, List.flatMap_append, Step.readings]
  rw [hsplit] at hclock ⊢
  intro r hr
  rcases List.mem_append.1 hr with hr | hr
  · exact (List.pairwise_append.1 hclock).2.2 r hr stale (by simp)
  · rw [List.mem_singleton.1 hr]
    exact UInt64.le_refl _

/-- After an update the vectors hold exactly the latest accepted messages that are neither gone nor
older than the timeout, and the store lists the candidates of their peers. -/
theorem mem_discoveredPeers_iff {deviceId deviceName platform : StdString} {first second : UInt64}
    {s₀ : DiscoveryService} {broadcast stale : UInt64}
    (hinit : DiscoveryService.init lib deviceId deviceName platform first second = .ok s₀)
    (hls : ∀ now, Step.cleanup now ∉ ls)
    (h : (machine lib).run s₀ (ls ++ [.update broadcast stale]) = some s)
    (hclock : (readings (ls ++ [.update broadcast stale])).Pairwise (· ≤ ·)) :
    s.availableDevices = s.discoveredPeers.map candidateOf ∧
      ∀ p, p ∈ s.discoveredPeers ↔ ∃ t,
        TimedTable.latest DiscoveryPeer.deviceId (acceptedLog lib s.selfPeer.deviceId ls)
          p.deviceId = some (p, t) ∧
        p.state ≠ .gone ∧ stale.toNat ≤ t.toNat + 15000 := by
  have hls' : ∀ now, Step.cleanup now ∉ ls ++ [.update broadcast stale] := by simpa using hls
  obtain ⟨table, hI⟩ := SoftInvariant.run (.init hinit) hls' hclock h
  obtain ⟨t, ht, hstep⟩ := Machine.run_concat_eq_some.1 h
  have hlog : acceptedLog lib s.selfPeer.deviceId (ls ++ [.update broadcast stale]) =
      acceptedLog lib s.selfPeer.deviceId ls := by
    simp [acceptedLog, List.filterMap_append, Step.accepted]
  have htimeout : peerStaleTimeoutMs.toNat = 15000 := rfl
  -- the update leaves what is fresh at its last reading
  have hfresh : ∀ e ∈ table.entries, isStale stale e.2 = false := by
    obtain ⟨table₀, hI₀⟩ := SoftInvariant.run (.init hinit) hls
      (by rw [readings, List.flatMap_append] at hclock; exact (List.pairwise_append.1 hclock).1) ht
    have hT := (update_spec hI₀.represents (Except.eq_ok_of_toOption hstep)).2.1
    rw [hI.represents.unique hT]
    exact fun e he => (TimedTable.mem_expire.1 he).2
  have hmem : ∀ e, e ∈ table.entries ↔ TimedTable.latest DiscoveryPeer.deviceId
      (acceptedLog lib s.selfPeer.deviceId ls) e.1.deviceId = some e ∧ e.1.state ≠ .gone ∧
      stale.toNat ≤ e.2.toNat + 15000 := by
    intro e
    rw [← hlog, ← htimeout]
    constructor
    · intro he
      have hnow : stale ∈ (Step.update broadcast stale).readings := by simp [Step.readings]
      have hle := acceptedLog_le_reading hclock (TimedTable.mem_of_latest (hI.tracks e he)) hnow
      exact ⟨hI.tracks e he, (hI.admissible e he).2.2, (isStale_eq_false_iff hle).1 (hfresh e he)⟩
    · rintro ⟨hlatest, hgone, hrecent⟩
      exact hI.covers e hlatest hgone (not_dropped (readings_le_stale hclock) hrecent)
  refine ⟨?_, fun p => ?_⟩
  · obtain ⟨u, -, hupdate⟩ := Except.bind_eq_ok_iff.1 (Except.eq_ok_of_toOption hstep)
    rw [← hI.candidatesOf_eq, ← Except.ok.inj hupdate]
    rfl
  · rw [hI.represents.1, List.mem_map]
    constructor
    · rintro ⟨e, he, rfl⟩
      exact ⟨e.2, (hmem e).1 he⟩
    · rintro ⟨t, ht⟩
      exact ⟨(p, t), (hmem (p, t)).2 ht, rfl⟩

theorem deviceId_of_step (h : step lib s l = some s') :
    s'.selfPeer.deviceId = s.selfPeer.deviceId := by
  by_cases hl : ∃ now, l = .cleanup now
  · obtain ⟨now, rfl⟩ := hl
    exact (cleanup_spec (Except.eq_ok_of_toOption h)).2.1
  · exact congrArg _ (says_of_step (fun now heq => hl ⟨now, heq⟩) h).selfPeer

/-- Every listed device was read from an accepted message that did not say that it had gone. -/
theorem logged_of_listed {deviceId deviceName platform : StdString} {first second : UInt64}
    {s₀ : DiscoveryService}
    (hinit : DiscoveryService.init lib deviceId deviceName platform first second = .ok s₀)
    (h : (machine lib).run s₀ ls = some s) :
    ∀ c ∈ s.availableDevices, ∃ e ∈ acceptedLog lib s.selfPeer.deviceId ls,
      e.1.state ≠ .gone ∧ c = candidateOf e.1 := by
  refine Machine.run_induction (motive := fun ls s => (machine lib).run s₀ ls = some s →
    ∀ c ∈ s.availableDevices, ∃ e ∈ acceptedLog lib s.selfPeer.deviceId ls,
      e.1.state ≠ .gone ∧ c = candidateOf e.1) ?_ ?_ h h
  · rw [(availableDevices_init hinit).1]
    nofun
  · intro ls t l t' ht ih hstep hrun c hc
    rcases availableDevices_step hstep with hmade | ⟨hkept, -⟩
    · obtain ⟨table, hI⟩ := TableInvariant.run (.init hinit) hrun
      rw [hmade, hI.candidatesOf_eq] at hc
      obtain ⟨p, hp, rfl⟩ := List.mem_map.1 hc
      rw [hI.represents.1] at hp
      obtain ⟨e, he, rfl⟩ := List.mem_map.1 hp
      exact ⟨e, TimedTable.mem_of_latest (hI.tracks e he), (hI.admissible e he).2.2, rfl⟩
    · rw [hkept] at hc
      obtain ⟨e, he, hgone⟩ := ih ht c hc
      refine ⟨e, ?_, hgone⟩
      rw [deviceId_of_step hstep, acceptedLog, List.filterMap_append]
      exact List.mem_append_left _ he

end DiscoveryService

open DiscoveryService in
/-- What the store lists. After every update of a service that runs, on a clock that does not step
back: the listed devices are exactly those whose latest accepted datagram does not say that they
have gone and is no older than 15 seconds, each as that datagram describes it and under the address
it came from. -/
theorem listed_iff_heard {lib : Nlohmann} {deviceId deviceName platform : StdString}
    {first second : UInt64} {s₀ s : DiscoveryService} {ls : List Step} {broadcast stale : UInt64}
    (hinit : init lib deviceId deviceName platform first second = .ok s₀)
    (hls : ∀ now, Step.cleanup now ∉ ls)
    (h : (machine lib).run s₀ (ls ++ [.update broadcast stale]) = some s)
    (hclock : (readings (ls ++ [.update broadcast stale])).Pairwise (· ≤ ·))
    (c : ConnectionCandidate) :
    c ∈ s.availableDevices ↔ ∃ p t,
      TimedTable.latest DiscoveryPeer.deviceId (acceptedLog lib s.selfPeer.deviceId ls) p.deviceId =
        some (p, t) ∧
      p.state ≠ .gone ∧ stale.toNat ≤ t.toNat + 15000 ∧
      c = ⟨p.state = .busy, p.deviceName, p.ipAddress, defaultPeerPort⟩ := by
  obtain ⟨hlist, hmem⟩ := mem_discoveredPeers_iff hinit hls h hclock
  rw [hlist, List.mem_map]
  constructor
  · rintro ⟨p, hp, rfl⟩
    obtain ⟨t, hlatest, hgone, hrecent⟩ := (hmem p).1 hp
    exact ⟨p, t, hlatest, hgone, hrecent, rfl⟩
  · rintro ⟨p, t, hlatest, hgone, hrecent, rfl⟩
    exact ⟨p, (hmem p).2 ⟨t, hlatest, hgone, hrecent⟩, rfl⟩

open DiscoveryService in
/-- After these messages and an update 15 seconds later only the device at 10.0.0.3 is listed, for
its message. -/
theorem listed_iff_heard_gone : ∃ s₀ s,
    init JsonText.nlohmann (.ofString "a") [] [] 0 0 = .ok s₀ ∧
      (machine JsonText.nlohmann).run s₀ (seenAndGone ++ [.update 15001 15002]) = some s ∧
      s.availableDevices.map ConnectionCandidate.ip = [.ofString "10.0.0.3"] ∧
      ∃ p t, TimedTable.latest DiscoveryPeer.deviceId
        (acceptedLog JsonText.nlohmann s.selfPeer.deviceId seenAndGone) p.deviceId = some (p, t) ∧
        15002 ≤ t.toNat + 15000 := by
  have hrun : ∃ s₀ ∈ (init JsonText.nlohmann (.ofString "a") [] [] 0 0).toOption,
      ∃ s ∈ (machine JsonText.nlohmann).run s₀ (seenAndGone ++ [.update 15001 15002]),
        s.availableDevices.map ConnectionCandidate.ip = [.ofString "10.0.0.3"] := by
    decide +kernel
  obtain ⟨s₀, hs₀, s, hs, hips⟩ := hrun
  have hinit := Except.eq_ok_of_toOption hs₀
  have hcandidate : ∃ c, c ∈ s.availableDevices := by
    refine List.exists_mem_of_ne_nil _ fun hnil => ?_
    rw [hnil] at hips
    cases hips
  obtain ⟨c, hc⟩ := hcandidate
  obtain ⟨p, t, hlatest, -, hrecent, -⟩ :=
    (listed_iff_heard hinit (by simp [seenAndGone]) hs (by decide) c).1 hc
  exact ⟨s₀, s, hinit, hs, hips, p, t, hlatest, hrecent⟩

end Keyleport
