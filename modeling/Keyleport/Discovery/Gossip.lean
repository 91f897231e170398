import Keyleport.Discovery.Network
import Keyleport.Lib.Gossip

/-!
# Discovery is gossip by announcements

Seen from outside, the network of discovery services is the gossip of `Gossip`: a broadcast is an
announcement of the device, an entry of a table is a node heard of, and the broadcast that
answers a new peer is an answer. The steadiness of the clocks is what makes it so, since an entry
that went stale would be forgotten.

* `Discovery.simulates`: with steady clocks, every step of the network is a step of gossip, or
  changes nothing gossip sees.
-/

namespace Keyleport

namespace Discovery

variable {D : Type}

/-! ## What gossip sees -/

/-- `d` has an entry for `x`. -/
def Knows (setup : Setup D) (w : Discovery D) (d x : D) : Prop :=
  ∃ s ∈ w.service d, ∃ p ∈ s.discoveredPeers, p.deviceId = setup.deviceId x

instance (setup : Setup D) (w : Discovery D) (d x : D) : Decidable (Knows setup w d x) :=
  inferInstanceAs (Decidable (∃ s ∈ w.service d, ∃ p ∈ s.discoveredPeers, _))

/-- The pairs of devices with a datagram on its way. -/
def flights (F : List (D × D × StdString)) : Set (D × D) :=
  {p | ∃ payload, (p.1, p.2, payload) ∈ F}

/-- What gossip by announcements sees of the network. -/
def toGossip [Fintype D] (setup : Setup D) (w : Discovery D) : Gossip.State D where
  started := {d | d ∈ w.started}
  known d := Finset.univ.filter fun x => Knows setup w d x
  inFlight := flights w.inFlight
  answers := w.answers

theorem flights_append (F G : List (D × D × StdString)) :
    flights (F ++ G) = flights F ∪ flights G := by
  ext p
  simp only [flights, List.mem_append, exists_or, Set.mem_ofPred_eq, Set.mem_union]

theorem flights_announcements {started : List D} {d : D} {sent : List StdString}
    (h : sent ≠ []) :
    flights (announcements started d sent) = Gossip.toAll d {e | e ∈ started} := by
  obtain ⟨payload, hpayload⟩ := List.exists_mem_of_ne_nil sent h
  ext p
  simp only [flights, mem_announcements, Gossip.toAll, Set.mem_ofPred_eq]
  exact ⟨fun ⟨_, hd, he, _⟩ => ⟨hd, he⟩, fun ⟨hd, he⟩ => ⟨payload, hd, he, hpayload⟩⟩

theorem flights_announcements_nil (started : List D) (d : D) :
    flights (announcements started d []) = ∅ := by
  ext p
  simp [flights, announcements]

/-- A delivery takes at most its own pair out of flight. -/
theorem flights_eraseIdx {F : List (D × D × StdString)} {k : ℕ} {src dst : D}
    {payload : StdString} (h : F[k]? = some (src, dst, payload)) :
    flights F \ {(src, dst)} ⊆ flights (F.eraseIdx k) := by
  rintro p ⟨⟨payload', hp⟩, hne⟩
  obtain ⟨i, hi⟩ := List.mem_iff_getElem?.1 hp
  refine ⟨payload', List.mem_eraseIdx_iff_getElem?.2 ⟨i, ?_, hi⟩⟩
  rintro rfl
  obtain ⟨hsrc, hrest⟩ := Prod.mk.inj (Option.some.inj (h.symm.trans hi))
  exact hne (Prod.ext hsrc.symm (Prod.mk.inj hrest).1.symm)

theorem flights_eraseIdx_subset (F : List (D × D × StdString)) (k : ℕ) :
    flights (F.eraseIdx k) ⊆ flights F :=
  fun _ ⟨payload, hp⟩ => ⟨payload, List.mem_of_mem_eraseIdx hp⟩

/-- A duplicate puts no new pair in flight. -/
theorem flights_cons_of_mem {F : List (D × D × StdString)} {p : D × D × StdString}
    (h : p ∈ F) : flights (p :: F) = flights F := by
  ext q
  simp only [flights, List.mem_cons, Set.mem_ofPred_eq]
  constructor
  · rintro ⟨payload, rfl | hq⟩
    · exact ⟨payload, h⟩
    · exact ⟨payload, hq⟩
  · exact fun ⟨payload, hq⟩ => ⟨payload, Or.inr hq⟩

/-- A device that is not running knows nobody. -/
theorem not_knows_of_not_running {setup : Setup D} {w : Discovery D} {d x : D}
    (hs : w.service d = none) : ¬ Knows setup w d x := by
  rintro ⟨s, hs', -⟩
  rw [hs] at hs'
  cases hs'

/-- A device that is running is not new. -/
private theorem mem_started_iff {started : List D} {d : D} (hd : d ∈ started) (e : D) :
    e ∈ started ↔ e = d ∨ e ∈ started :=
  ⟨Or.inr, fun h => h.elim (fun he => he ▸ hd) id⟩

variable [DecidableEq D] {setup : Setup D} {ls : List (Step D)} {w w' : Discovery D}

/-- Of a running device, the entries known are the keys of its table. -/
theorem Running.knows_iff {started : List D} {d x : D} {s : DiscoveryService}
    {table : DiscoveryService.PeerTable} (h : Running setup ls started d s table)
    (hs : w.service d = some s) : Knows setup w d x ↔ table.HasKey (setup.deviceId x) := by
  simp only [Knows, hs, Option.mem_def, Option.some.injEq, exists_eq_left', h.represents.1,
    List.mem_map]
  constructor
  · rintro ⟨p, ⟨e, he, rfl⟩, hid⟩
    exact ⟨e, he, hid⟩
  · rintro ⟨e, he, hid⟩
    exact ⟨e.1, ⟨e, he, rfl⟩, hid⟩

variable [Fintype D]

omit [DecidableEq D] in
theorem mem_known {d x : D} : x ∈ (toGossip setup w).known d ↔ Knows setup w d x :=
  Finset.mem_filter_univ x

/-- What is known after a step of one device. -/
theorem toGossip_known_update {started : List D} {d : D} {s : DiscoveryService}
    {table : DiscoveryService.PeerTable} {S : Finset D}
    (hservice : w'.service = Function.update w.service d (some s))
    (hrun : Running setup ls started d s table)
    (hS : ∀ x, table.HasKey (setup.deviceId x) ↔ x ∈ S) :
    (toGossip setup w').known = Function.update (toGossip setup w).known d S := by
  funext e
  by_cases he : e = d
  · subst he
    have hs : w'.service e = some s := by rw [hservice, Function.update_self]
    rw [Function.update_self]
    ext x
    rw [mem_known, ← hS x, hrun.knows_iff hs]
  · have hs : w'.service e = w.service e := by rw [hservice, Function.update_of_ne he]
    rw [Function.update_of_ne he]
    ext x
    rw [mem_known, mem_known, Knows, Knows, hs]

/-! ## Simulation -/

/-- The outcome of one simulated step. -/
def Simulated (loss : Bool) (setup : Setup D) (ls : List (Step D)) (w w' : Discovery D) : Prop :=
  Invariant setup ls w' ∧ (toGossip setup w' = toGossip setup w ∨
    Gossip.Step loss (toGossip setup w) (toGossip setup w'))

/-- A start is a start. -/
private theorem simulates_start {loss : Bool} {d : D} {first second : UInt64}
    (hI : Invariant setup ls w) (h : step setup w (.start d first second) = some w') :
    Simulated loss setup (ls ++ [.start d first second]) w w' := by
  obtain ⟨hnone, s, hs, hw'⟩ := start_eq_some h
  have hservice : w'.service = Function.update w.service d (some s) := by rw [hw']
  have hstarted : w'.started = d :: w.started := by rw [hw']
  have hflight : w'.inFlight = w.inFlight ++ announcements (d :: w.started) d s.broadcasts := by
    rw [hw']
  have hanswers : w'.answers = w.answers := by rw [hw']
  obtain ⟨hT, hself, hclient, -, payload, hpayload, hsent⟩ := DiscoveryService.init_spec hs
  have hencode : (setup.selfPeer d).encode setup.lib = .ok payload := by
    rw [hself] at hpayload
    exact hpayload
  have hrun : Running setup (ls ++ [.start d first second]) w'.started d s TimedTable.empty :=
    ⟨hT, hself, hclient, ⟨payload, hencode⟩, nofun, nofun⟩
  -- the two broadcasts of `init` are one announcement, and the table is still empty
  refine ⟨hI.of_device hservice (fun e => ?_) hrun fun src dst p hp => ?_, Or.inr ?_⟩
  · rw [hstarted, List.mem_cons]
  · rw [hflight] at hp
    rcases List.mem_append.1 hp with hp | hp
    · exact Or.inl hp
    · obtain ⟨rfl, hdst, hp⟩ := mem_announcements.1 hp
      have hpeq : p = payload := by simpa [hsent] using hp
      exact Or.inr ⟨rfl, hstarted ▸ hdst, hpeq ▸ hencode⟩
  · have hempty : (toGossip setup w).known d = ∅ := by
      ext x
      rw [mem_known]
      simp [not_knows_of_not_running hnone]
    have hknown := toGossip_known_update (S := ∅) hservice hrun fun x => ⟨nofun, nofun⟩
    rw [← hempty, Function.update_eq_self] at hknown
    have hgossip : toGossip setup w' = { toGossip setup w with
        started := insert d (toGossip setup w).started
        inFlight := (toGossip setup w).inFlight ∪
          Gossip.toAll d (insert d (toGossip setup w).started) } := by
      refine Gossip.State.ext ?_ hknown ?_ hanswers
      · ext e
        simp [toGossip, hstarted]
      · have hinsert : {e | e ∈ d :: w.started} = insert d {e | e ∈ w.started} := by
          ext e
          simp
        rw [toGossip, hflight, flights_append, flights_announcements (by simp [hsent]), hinsert]
        rfl
    rw [hgossip]
    exact .start d fun hd => (hI.started d).1 hd hnone

/-- An update is an unasked announcement, or nothing. -/
private theorem simulates_tick {loss : Bool} {d : D} {broadcast stale : UInt64}
    (hI : Invariant setup ls w)
    (hclock : Steady (readings d (ls ++ [.tick d broadcast stale])))
    (h : step setup w (.tick d broadcast stale) = some w') :
    Simulated loss setup (ls ++ [.tick d broadcast stale]) w w' := by
  obtain ⟨s, s', hs, hupdate, hw'⟩ := tick_eq_some h
  have hservice : w'.service = Function.update w.service d (some s') := by rw [hw']
  have hstarted : w'.started = w.started := by rw [hw']
  have hflight : w'.inFlight = w.inFlight ++
      announcements w.started d (s'.broadcasts.drop s.broadcasts.length) := by rw [hw']
  have hanswers : w'.answers = w.answers := by rw [hw']
  have hd : d ∈ w.started := (hI.started d).2 (by simp [hs])
  obtain ⟨table, hold⟩ := hI.running d s hs
  obtain ⟨hsame, hT, hsent⟩ := DiscoveryService.update_spec hold.represents hupdate
  have hreadings : readings d (ls ++ [.tick d broadcast stale]) =
      readings d ls ++ [broadcast, stale] := by
    rw [readings_concat, Step.readings, if_pos rfl]
  rw [hreadings] at hclock
  -- the clock is steady, so nothing expires
  rw [TimedTable.expire_eq_self fun e he =>
    hclock.not_stale (hold.seen e he) (List.mem_cons_of_mem _ List.mem_cons_self)] at hT
  have hrun : Running setup (ls ++ [.tick d broadcast stale]) w'.started d s' table := by
    have hmono := hold.mono (fun x hx => hstarted ▸ hx) (.tick d broadcast stale)
    exact ⟨hT, hsame.selfPeer.trans hold.selfPeer, hsame.broadcastClient.trans hold.client,
      hold.encodes, hmono.seen, hmono.peer⟩
  have hknown : (toGossip setup w').known = (toGossip setup w).known := by
    rw [toGossip_known_update (S := (toGossip setup w).known d) hservice hrun fun x => ?_,
      Function.update_eq_self]
    rw [mem_known, hold.knows_iff hs]
  have hsub : ∀ p ∈ s'.broadcasts.drop s.broadcasts.length,
      (setup.selfPeer d).encode setup.lib = .ok p := by
    intro p hp
    rcases hsent with hsent | ⟨payload, hpayload, hsent⟩
    · simp [hsent] at hp
    · have hpeq : p = payload := by simpa [hsent] using hp
      rw [hpeq, ← hold.selfPeer, hpayload]
  refine ⟨hI.of_device hservice (fun e => ?_) hrun fun src dst p hp => ?_, ?_⟩
  · exact hstarted ▸ mem_started_iff hd e
  · rw [hflight] at hp
    rcases List.mem_append.1 hp with hp | hp
    · exact Or.inl hp
    · obtain ⟨rfl, hdst, hp⟩ := mem_announcements.1 hp
      exact Or.inr ⟨rfl, hstarted ▸ hdst, hsub p hp⟩
  · by_cases hnil : s'.broadcasts.drop s.broadcasts.length = []
    · -- the interval has not passed
      refine Or.inl (Gossip.State.ext ?_ hknown ?_ hanswers)
      · rw [toGossip, toGossip, hstarted]
      · rw [toGossip, toGossip, hflight, hnil, flights_append, flights_announcements_nil,
          Set.union_empty]
    · -- the interval has passed
      refine Or.inr ?_
      have hgossip : toGossip setup w' = { toGossip setup w with
          inFlight := (toGossip setup w).inFlight ∪
            Gossip.toAll d (toGossip setup w).started } := by
        refine Gossip.State.ext ?_ hknown ?_ hanswers
        · rw [toGossip, toGossip, hstarted]
        · rw [toGossip, hflight, flights_append, flights_announcements hnil]
          rfl
      rw [hgossip]
      exact .announce d hd

/-- A datagram the self filter drops: `d` hears of itself, or of a device that has the loopback
address, which counts as a loss. -/
private theorem simulates_dropped {loss : Bool} {d src : D} {k : ℕ} {clock : MessageClock}
    {payload : StdString} (hloss : loss = false → ∀ e, setup.ip e ≠ DiscoveryService.selfIpAddress)
    (hI : Invariant setup ls w) (hk : w.inFlight[k]? = some (src, d, payload))
    (hself : DiscoveryService.isSelf (setup.deviceId d) (setup.peer src) = true)
    (hw' : w' = { w with inFlight := w.inFlight.eraseIdx k }) :
    Simulated loss setup (ls ++ [.deliver d k clock]) w w' := by
  subst hw'
  refine ⟨hI.of_inFlight fun p hp => List.mem_of_mem_eraseIdx hp, Or.inr ?_⟩
  have hhi := flights_eraseIdx_subset w.inFlight k
  cases loss with
  | true => exact .lose _ rfl hhi
  | false =>
    -- without the loopback address, the filter drops the device's own datagrams only
    have hid : setup.deviceId src = setup.deviceId d := by
      simp only [DiscoveryService.isSelf, decide_eq_true_eq] at hself
      exact hself.resolve_left (hloss rfl src)
    exact .hear src d _ (Or.inl (setup.deviceId_injective hid)) (flights_eraseIdx hk) hhi

/-- The device `d` has taken the datagram at `k` and sent `sent`. -/
private structure Delivered (w w' : Discovery D) (d : D) (k : ℕ) (s' : DiscoveryService)
    (sent : List StdString) : Prop where
  service : w'.service = Function.update w.service d (some s')
  started : w'.started = w.started
  inFlight : w'.inFlight = w.inFlight.eraseIdx k ++ announcements w.started d sent
  answers : w'.answers = Function.update w.answers d (w.answers d + sent.length)

/-- A known sender is updated in place, and nothing is sent. -/
private theorem simulates_heard {loss : Bool} {d src : D} {k : ℕ} {payload : StdString}
    {s' : DiscoveryService} {table : DiscoveryService.PeerTable} {l : Step D}
    (hI : Invariant setup ls w) (hk : w.inFlight[k]? = some (src, d, payload))
    (hd : d ∈ w.started) (hw' : Delivered w w' d k s' [])
    (hrun : Running setup (ls ++ [l]) w'.started d s' table)
    (hknown : (toGossip setup w').known = Function.update (toGossip setup w).known d
      (insert src ((toGossip setup w).known d)))
    (hmem : src ∈ (toGossip setup w).known d) : Simulated loss setup (ls ++ [l]) w w' := by
  refine ⟨hI.of_device hw'.service (fun e => ?_) hrun fun a b p hp => Or.inl ?_, Or.inr ?_⟩
  · exact hw'.started ▸ mem_started_iff hd e
  · have hp' : (a, b, p) ∈ w.inFlight.eraseIdx k := by
      simpa [hw'.inFlight, announcements] using hp
    exact List.mem_of_mem_eraseIdx hp'
  · have hgossip : toGossip setup w' =
        { toGossip setup w with inFlight := flights (w.inFlight.eraseIdx k) } := by
      apply Gossip.State.ext
      · rw [toGossip, toGossip, hw'.started]
      · rw [hknown, Finset.insert_eq_of_mem hmem, Function.update_eq_self]
      · rw [toGossip, hw'.inFlight, flights_append, flights_announcements_nil, Set.union_empty]
      · rw [toGossip, hw'.answers, List.length_nil, Nat.add_zero, Function.update_eq_self]
        rfl
    rw [hgossip]
    exact .hear src d _ (Or.inr hmem) (flights_eraseIdx hk) (flights_eraseIdx_subset w.inFlight k)

/-- A new sender is appended, and answered with one broadcast. -/
private theorem simulates_learnt {loss : Bool} {d src : D} {k : ℕ} {payload answer : StdString}
    {s' : DiscoveryService} {table : DiscoveryService.PeerTable} {l : Step D}
    (hI : Invariant setup ls w) (hk : w.inFlight[k]? = some (src, d, payload))
    (hd : d ∈ w.started) (hw' : Delivered w w' d k s' [answer])
    (hrun : Running setup (ls ++ [l]) w'.started d s' table)
    (hanswer : (setup.selfPeer d).encode setup.lib = .ok answer)
    (hknown : (toGossip setup w').known = Function.update (toGossip setup w).known d
      (insert src ((toGossip setup w).known d)))
    (hne : src ≠ d) (hmem : src ∉ (toGossip setup w).known d) :
    Simulated loss setup (ls ++ [l]) w w' := by
  refine ⟨hI.of_device hw'.service (fun e => ?_) hrun fun a b p hp => ?_, Or.inr ?_⟩
  · exact hw'.started ▸ mem_started_iff hd e
  · rw [hw'.inFlight] at hp
    rcases List.mem_append.1 hp with hp | hp
    · exact Or.inl (List.mem_of_mem_eraseIdx hp)
    · obtain ⟨rfl, hb, hp⟩ := mem_announcements.1 hp
      obtain rfl := List.mem_singleton.1 hp
      exact Or.inr ⟨rfl, hw'.started ▸ hb, hanswer⟩
  · have hgossip : toGossip setup w' = { toGossip setup w with
        known := Function.update (toGossip setup w).known d
          (insert src ((toGossip setup w).known d))
        inFlight := flights (w.inFlight.eraseIdx k) ∪
          Gossip.toAll d (toGossip setup w).started
        answers := Function.update (toGossip setup w).answers d
          ((toGossip setup w).answers d + 1) } := by
      refine Gossip.State.ext ?_ hknown ?_ hw'.answers
      · rw [toGossip, toGossip, hw'.started]
      · rw [toGossip, hw'.inFlight, flights_append, flights_announcements (by simp)]
        rfl
    rw [hgossip]
    exact .learn src d _ ⟨payload, List.mem_of_getElem? hk⟩ hne hmem (flights_eraseIdx hk)
      (flights_eraseIdx_subset w.inFlight k)

/-- A delivery is heard, and answered if its sender is new. -/
private theorem simulates_deliver {loss : Bool} {d : D} {k : ℕ} {clock : MessageClock}
    (hloss : loss = false → ∀ e, setup.ip e ≠ DiscoveryService.selfIpAddress)
    (hI : Invariant setup ls w) (hclock : Steady (readings d (ls ++ [.deliver d k clock])))
    (h : step setup w (.deliver d k clock) = some w') :
    Simulated loss setup (ls ++ [.deliver d k clock]) w w' := by
  obtain ⟨src, payload, s, s', hk, hs, hmsg, hw'⟩ := deliver_eq_some h
  have hd : d ∈ w.started := (hI.started d).2 (by simp [hs])
  obtain ⟨hsrc, -, hpayload⟩ := hI.inFlight src d payload (List.mem_of_getElem? hk)
  obtain ⟨table, hold⟩ := hI.running d s hs
  have hreadings : readings d (ls ++ [.deliver d k clock]) =
      readings d ls ++ [clock.seen, clock.stale, clock.broadcast] := by
    rw [readings_concat, Step.readings, if_pos rfl]
  rcases onMessage_cases hold (hreadings ▸ hclock) hpayload hmsg with
    ⟨hself, rfl⟩ | ⟨hsame, hclient, hne, hT, hknows, hnew⟩
  · apply simulates_dropped hloss hI hk hself
    rw [hw', List.drop_length, List.length_nil, Nat.add_zero, announcements, List.flatMap_nil,
      List.append_nil, Function.update_eq_self, ← hs, Function.update_eq_self]
  have hstarted : w'.started = w.started := by rw [hw']
  have hdelivered : Delivered w w' d k s' (s'.broadcasts.drop s.broadcasts.length) := by
    rw [hw']
    exact ⟨rfl, rfl, rfl, rfl⟩
  have hnow : clock.seen ∈ readings d (ls ++ [.deliver d k clock]) := by
    rw [hreadings]
    exact List.mem_append_right _ List.mem_cons_self
  have hrun := hold.upsert hsrc hnow hsame hclient hT
  rw [← hstarted] at hrun
  have hknown : (toGossip setup w').known = Function.update (toGossip setup w).known d
      (insert src ((toGossip setup w).known d)) := by
    apply toGossip_known_update hdelivered.service hrun
    intro x
    rw [TimedTable.hasKey_upsert, Finset.mem_insert, mem_known, hold.knows_iff hs]
    exact or_congr_left ⟨fun hx => setup.deviceId_injective hx, congrArg _⟩
  by_cases hkey : table.HasKey (setup.deviceId src)
  · rw [hknows hkey, List.drop_length] at hdelivered
    exact simulates_heard hI hk hd hdelivered hrun hknown
      (mem_known.2 ((hold.knows_iff hs).2 hkey))
  · obtain ⟨answer, hanswer, hsent⟩ := hnew hkey
    rw [hsent, List.drop_left] at hdelivered
    exact simulates_learnt hI hk hd hdelivered hrun hanswer hknown hne fun hx =>
      hkey ((hold.knows_iff hs).1 (mem_known.1 hx))

/-- With steady clocks, every step of the network is a step of gossip or changes nothing gossip
sees. Gossip is without loss if the step is, and no device has the loopback address. -/
theorem simulates {loss : Bool} {l : Step D} (hI : Invariant setup ls w)
    (hclock : ∀ d, Steady (readings d (ls ++ [l])))
    (hloss : loss = false → (∀ k, l ≠ .lose k) ∧
      ∀ e, setup.ip e ≠ DiscoveryService.selfIpAddress)
    (h : step setup w l = some w') : Simulated loss setup (ls ++ [l]) w w' := by
  cases l with
  | start d first second => exact simulates_start hI h
  | deliver d k clock => exact simulates_deliver (fun hl => (hloss hl).2) hI (hclock d) h
  | tick d broadcast stale => exact simulates_tick hI (hclock d) h
  | leave d now => cases h
  | vanish d => cases h
  | duplicate k =>
    obtain ⟨F, hF, rfl⟩ := Option.map_eq_some_iff.1 h
    refine ⟨hI.of_inFlight fun q hq => mem_of_carry hF hq, Or.inl ?_⟩
    -- a copy puts nothing in flight that gossip does not have already
    obtain ⟨p, hp, rfl⟩ := Option.map_eq_some_iff.1 hF
    exact Gossip.State.ext rfl rfl (flights_cons_of_mem (List.mem_of_getElem? hp)) rfl
  | lose k =>
    obtain ⟨F, hF, rfl⟩ := Option.map_eq_some_iff.1 h
    refine ⟨hI.of_inFlight fun q hq => mem_of_carry hF hq, Or.inr ?_⟩
    obtain ⟨-, hF⟩ := Option.ite_none_right_eq_some.1 hF
    obtain rfl := Option.some.inj hF
    -- gossip loses an announcement only if the network may
    cases loss with
    | true => exact .lose _ rfl (flights_eraseIdx_subset w.inFlight k)
    | false => exact absurd rfl ((hloss rfl).1 k)

end Discovery

end Keyleport
