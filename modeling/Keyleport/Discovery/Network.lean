import Keyleport.Discovery.Exceptions

/-!
# A network of discovery services

Any number of devices, started at any time, of which none leaves. A broadcast is put in flight to
every device running at that moment, the sender included; datagrams are delivered in any order, and
may be duplicated and lost. Each step carries the clock readings of the device that takes it.

* `Discovery.Step`: the steps of a network, departures included.
* `Discovery.Invariant`: every table holds what running devices say of themselves, under their
  true addresses, at readings of its own clock.
* `Discovery.onMessage_cases`: what a delivery does while the clock is steady.
* `Discovery.deliver_enabled`: no delivery throws.
-/

namespace Keyleport

/-- The services, the devices that run one, and the datagrams in flight. -/
structure Discovery (D : Type) where
  service : D → Option DiscoveryService
  started : List D
  inFlight : List (D × D × StdString)
  /-- How many broadcasts each device made while it handled a datagram. -/
  answers : D → ℕ

namespace Discovery

/-- What is fixed during a run: devices with distinct ids, and their addresses. -/
structure Setup (D : Type) where
  lib : Nlohmann
  lawful : lib.Lawful
  deviceId : D → StdString
  deviceName : D → StdString
  platform : D → StdString
  ip : D → StdString
  deviceId_injective : Function.Injective deviceId

/-- The steps of the network. -/
inductive Step (D : Type) where
  /-- `init` of `d`. -/
  | start (d : D) (first second : UInt64)
  /-- The delivery to `d` of the datagram at position `k`. -/
  | deliver (d : D) (k : ℕ) (clock : MessageClock)
  /-- The rest of an `update` of `d`. -/
  | tick (d : D) (broadcast stale : UInt64)
  /-- `cleanup` of `d`. -/
  | leave (d : D) (now : UInt64)
  /-- The service of `d` is destroyed. -/
  | vanish (d : D)
  /-- The datagram at position `k` is duplicated. -/
  | duplicate (k : ℕ)
  /-- The datagram at position `k` is lost. -/
  | lose (k : ℕ)

/-- No device runs and nothing is in flight. -/
def empty {D : Type} : Discovery D := ⟨fun _ => none, [], [], fun _ => 0⟩

variable {D : Type} [DecidableEq D]

/-- What `s'` broadcast since `s`, put in flight from `d` to the devices running. -/
def announcements (started : List D) (d : D) (sent : List StdString) : List (D × D × StdString) :=
  sent.flatMap fun payload => started.map fun e => (d, e, payload)

/-- What is in flight after a step that the network takes by itself. -/
def carry (inFlight : List (D × D × StdString)) : Step D → Option (List (D × D × StdString))
  | .duplicate k => (inFlight[k]?).map fun p => p :: inFlight
  | .lose k => if k < inFlight.length then some (inFlight.eraseIdx k) else none
  | .start _ _ _ | .deliver _ _ _ | .tick _ _ _ | .leave _ _ | .vanish _ => none

/-- One step of the network. -/
def step (setup : Setup D) (w : Discovery D) : Step D → Option (Discovery D)
  | .start d first second =>
      match w.service d with
      | some _ => none
      | none => do
          let s ← (DiscoveryService.init setup.lib (setup.deviceId d) (setup.deviceName d)
            (setup.platform d) first second).toOption
          let started := d :: w.started
          return { w with
            service := Function.update w.service d (some s)
            started := started
            inFlight := w.inFlight ++ announcements started d s.broadcasts }
  | .deliver d k clock =>
      match w.inFlight[k]?, w.service d with
      | some (src, dst, payload), some s =>
          if dst = d then do
            let s' ← (s.onMessage setup.lib ⟨⟨setup.ip src⟩, Peer.self, payload⟩ clock).toOption
            let sent := s'.broadcasts.drop s.broadcasts.length
            return { w with
              service := Function.update w.service d (some s')
              inFlight := w.inFlight.eraseIdx k ++ announcements w.started d sent
              answers := Function.update w.answers d (w.answers d + sent.length) }
          else none
      | _, _ => none
  | .tick d broadcast stale =>
      match w.service d with
      | some s => do
          let s' ← (s.update setup.lib broadcast stale).toOption
          let sent := s'.broadcasts.drop s.broadcasts.length
          return { w with
            service := Function.update w.service d (some s')
            inFlight := w.inFlight ++ announcements w.started d sent }
      | none => none
  -- devices stay
  | .leave _ _ | .vanish _ => none
  | .duplicate k => (carry w.inFlight (.duplicate k)).map fun F => { w with inFlight := F }
  | .lose k => (carry w.inFlight (.lose k)).map fun F => { w with inFlight := F }

/-- The network as a machine. -/
def machine (setup : Setup D) : Machine (Discovery D) (Step D) := ⟨step setup⟩

/-! ## What a step does -/

theorem start_eq_some {setup : Setup D} {w w' : Discovery D} {d : D} {first second : UInt64}
    (h : step setup w (.start d first second) = some w') :
    w.service d = none ∧ ∃ s, DiscoveryService.init setup.lib (setup.deviceId d)
      (setup.deviceName d) (setup.platform d) first second = .ok s ∧
      w' = { w with
        service := Function.update w.service d (some s)
        started := d :: w.started
        inFlight := w.inFlight ++ announcements (d :: w.started) d s.broadcasts } := by
  simp only [step] at h
  split at h
  · cases h
  next hnone =>
    obtain ⟨s, hs, hw'⟩ := Option.bind_eq_some_iff.1 h
    exact ⟨hnone, s, Except.eq_ok_of_toOption hs, (Option.some.inj hw').symm⟩

theorem deliver_eq_some {setup : Setup D} {w w' : Discovery D} {d : D} {k : ℕ}
    {clock : MessageClock} (h : step setup w (.deliver d k clock) = some w') :
    ∃ src payload s s', w.inFlight[k]? = some (src, d, payload) ∧ w.service d = some s ∧
      s.onMessage setup.lib ⟨⟨setup.ip src⟩, Peer.self, payload⟩ clock = .ok s' ∧
      w' = { w with
        service := Function.update w.service d (some s')
        inFlight := w.inFlight.eraseIdx k ++
          announcements w.started d (s'.broadcasts.drop s.broadcasts.length)
        answers := Function.update w.answers d
          (w.answers d + (s'.broadcasts.drop s.broadcasts.length).length) } := by
  simp only [step] at h
  split at h
  next src dst payload s hk hs =>
    split at h
    next hd =>
      subst hd
      obtain ⟨s', hs', hw'⟩ := Option.bind_eq_some_iff.1 h
      exact ⟨src, payload, s, s', hk, hs, Except.eq_ok_of_toOption hs',
        (Option.some.inj hw').symm⟩
    next => cases h
  next => cases h

theorem tick_eq_some {setup : Setup D} {w w' : Discovery D} {d : D} {broadcast stale : UInt64}
    (h : step setup w (.tick d broadcast stale) = some w') :
    ∃ s s', w.service d = some s ∧ s.update setup.lib broadcast stale = .ok s' ∧
      w' = { w with
        service := Function.update w.service d (some s')
        inFlight := w.inFlight ++
          announcements w.started d (s'.broadcasts.drop s.broadcasts.length) } := by
  simp only [step] at h
  split at h
  next s hs =>
    obtain ⟨s', hs', hw'⟩ := Option.bind_eq_some_iff.1 h
    exact ⟨s, s', hs, Except.eq_ok_of_toOption hs', (Option.some.inj hw').symm⟩
  next => cases h

omit [DecidableEq D] in
/-- The network by itself puts nothing new in flight. -/
theorem mem_of_carry {inFlight F : List (D × D × StdString)} {l : Step D}
    (h : carry inFlight l = some F) {p : D × D × StdString} (hp : p ∈ F) : p ∈ inFlight := by
  cases l with
  | duplicate k =>
    obtain ⟨q, hq, rfl⟩ := Option.map_eq_some_iff.1 h
    rcases List.mem_cons.1 hp with rfl | hp
    · exact List.mem_of_getElem? hq
    · exact hp
  | lose k =>
    obtain ⟨-, h⟩ := Option.ite_none_right_eq_some.1 h
    obtain rfl := Option.some.inj h
    exact List.mem_of_mem_eraseIdx hp
  | start d first second => cases h
  | deliver d k clock => cases h
  | tick d broadcast stale => cases h
  | leave d now => cases h
  | vanish d => cases h

/-! ## Clocks -/

/-- The readings a step takes of the clock of `d`, in order. -/
def Step.readings (d : D) : Step D → List UInt64
  | start e first second => if e = d then [first, second] else []
  | deliver e _ clock => if e = d then [clock.seen, clock.stale, clock.broadcast] else []
  | tick e broadcast stale => if e = d then [broadcast, stale] else []
  | leave e now => if e = d then [now] else []
  | vanish _ => []
  | duplicate _ => []
  | lose _ => []

/-- The readings of the clock of `d` in a run. -/
def readings (d : D) (ls : List (Step D)) : List UInt64 := ls.flatMap (Step.readings d)

/-- Readings that do not decrease and stay within one window of the staleness timeout. -/
structure Steady (rs : List UInt64) : Prop where
  sorted : rs.Pairwise (· ≤ ·)
  window : ∀ r ∈ rs, ∀ r' ∈ rs, r'.toNat ≤ r.toNat + DiscoveryService.peerStaleTimeoutMs.toNat

theorem Steady.of_append {rs rs' : List UInt64} (h : Steady (rs ++ rs')) : Steady rs :=
  ⟨(List.pairwise_append.1 h.sorted).1, fun r hr r' hr' =>
    h.window r (List.mem_append_left _ hr) r' (List.mem_append_left _ hr')⟩

theorem readings_concat (d : D) (ls : List (Step D)) (l : Step D) :
    readings d (ls ++ [l]) = readings d ls ++ l.readings d := by
  simp [readings, List.flatMap_append]

/-- With a steady clock, a time read before is not stale. -/
theorem Steady.not_stale {rs rs' : List UInt64} (h : Steady (rs ++ rs')) {t now : UInt64}
    (ht : t ∈ rs) (hnow : now ∈ rs') : DiscoveryService.isStale now t = false := by
  have hle : t ≤ now := (List.pairwise_append.1 h.sorted).2.2 t ht now hnow
  have hwindow := h.window t (List.mem_append_left _ ht) now (List.mem_append_right _ hnow)
  exact (DiscoveryService.isStale_eq_false_iff hle).2 hwindow

/-! ## The invariant -/

/-- The own state of a device, as `init` sets it. -/
def Setup.selfPeer (setup : Setup D) (d : D) : DiscoveryPeer :=
  ⟨setup.deviceId d, setup.deviceName d, DiscoveryService.selfIpAddress, setup.platform d, .idle⟩

/-- What other devices store of a device: its own state under its true address. -/
def Setup.peer (setup : Setup D) (d : D) : DiscoveryPeer :=
  { setup.selfPeer d with ipAddress := setup.ip d }

/-- The service of a running device `d`, whose entries are other running devices, last seen at
readings of its own clock. -/
structure Running (setup : Setup D) (ls : List (Step D)) (started : List D) (d : D)
    (s : DiscoveryService) (table : DiscoveryService.PeerTable) : Prop where
  represents : DiscoveryService.Represents table s
  selfPeer : s.selfPeer = setup.selfPeer d
  client : s.broadcastClient = true
  encodes : ∃ payload, (setup.selfPeer d).encode setup.lib = .ok payload
  seen : ∀ e ∈ table.entries, e.2 ∈ readings d ls
  peer : ∀ e ∈ table.entries, ∃ x ∈ started, e.1 = setup.peer x

/-- The invariant of a run with the steps `ls`. -/
structure Invariant (setup : Setup D) (ls : List (Step D)) (w : Discovery D) : Prop where
  started : ∀ d, d ∈ w.started ↔ w.service d ≠ none
  running : ∀ d s, w.service d = some s → ∃ table, Running setup ls w.started d s table
  /-- What is in flight is the own state of a running device. -/
  inFlight : ∀ src dst payload, (src, dst, payload) ∈ w.inFlight →
    src ∈ w.started ∧ dst ∈ w.started ∧ (setup.selfPeer src).encode setup.lib = .ok payload

variable {setup : Setup D} {ls : List (Step D)} {w w' : Discovery D}

omit [DecidableEq D] in
theorem mem_announcements {started : List D} {d a b : D} {sent : List StdString}
    {payload : StdString} :
    (a, b, payload) ∈ announcements started d sent ↔ a = d ∧ b ∈ started ∧ payload ∈ sent := by
  simp only [announcements, List.mem_flatMap, List.mem_map, Prod.mk.injEq]
  constructor
  · rintro ⟨p, hp, e, he, rfl, rfl, rfl⟩
    exact ⟨rfl, he, hp⟩
  · rintro ⟨rfl, hb, hp⟩
    exact ⟨payload, hp, b, hb, rfl, rfl, rfl⟩

theorem Invariant.empty (setup : Setup D) : Invariant setup [] Discovery.empty :=
  ⟨fun _ => ⟨nofun, fun h => absurd rfl h⟩, nofun, nofun⟩

/-- More steps and more devices keep a service as it should be. -/
theorem Running.mono {started started' : List D} {d : D} {s : DiscoveryService}
    {table : DiscoveryService.PeerTable} (h : Running setup ls started d s table)
    (hsub : ∀ x ∈ started, x ∈ started') (l : Step D) :
    Running setup (ls ++ [l]) started' d s table where
  represents := h.represents
  selfPeer := h.selfPeer
  client := h.client
  encodes := h.encodes
  seen e he := by
    rw [readings_concat]
    exact List.mem_append_left _ (h.seen e he)
  peer e he := (h.peer e he).imp fun x hx => ⟨hsub x hx.1, hx.2⟩

/-- A service that has recorded a running device is as it should be. -/
theorem Running.upsert {started : List D} {d src : D} {s s' : DiscoveryService}
    {table : DiscoveryService.PeerTable} {now : UInt64} {l : Step D}
    (h : Running setup ls started d s table) (hsrc : src ∈ started)
    (hnow : now ∈ readings d (ls ++ [l])) (hself : s'.selfPeer = s.selfPeer)
    (hclient : s'.broadcastClient = true)
    (hT : DiscoveryService.Represents (table.upsert (setup.peer src) now) s') :
    Running setup (ls ++ [l]) started d s' (table.upsert (setup.peer src) now) := by
  have hmono := h.mono (fun x hx => hx) l
  refine ⟨hT, hself.trans h.selfPeer, hclient, h.encodes, fun e he => ?_, fun e he => ?_⟩
  · rcases TimedTable.mem_upsert.1 he with rfl | ⟨he, -⟩
    · exact hnow
    · exact hmono.seen e he
  · rcases TimedTable.mem_upsert.1 he with rfl | ⟨he, -⟩
    · exact ⟨src, hsrc, rfl⟩
    · exact hmono.peer e he

/-- A step of one device, which announces nothing but its own state. -/
theorem Invariant.of_device (hI : Invariant setup ls w) {l : Step D} {d : D}
    {s : DiscoveryService} {table : DiscoveryService.PeerTable}
    (hservice : w'.service = Function.update w.service d (some s))
    (hstarted : ∀ e, e ∈ w'.started ↔ e = d ∨ e ∈ w.started)
    (hrun : Running setup (ls ++ [l]) w'.started d s table)
    (hflight : ∀ src dst payload, (src, dst, payload) ∈ w'.inFlight →
      (src, dst, payload) ∈ w.inFlight ∨
        src = d ∧ dst ∈ w'.started ∧ (setup.selfPeer d).encode setup.lib = .ok payload) :
    Invariant setup (ls ++ [l]) w' := by
  have hsub : ∀ x ∈ w.started, x ∈ w'.started := fun x hx => (hstarted x).2 (Or.inr hx)
  -- each part is checked at the device that took the step, and kept at the others
  refine ⟨fun e => ?_, fun e t ht => ?_, fun src dst payload hp => ?_⟩
  · rw [hstarted, hservice, hI.started]
    by_cases he : e = d
    · subst he
      simp
    · rw [Function.update_of_ne he]
      simp [he]
  · rw [hservice] at ht
    by_cases he : e = d
    · subst he
      rw [Function.update_self] at ht
      obtain rfl := Option.some.inj ht
      exact ⟨table, hrun⟩
    · rw [Function.update_of_ne he] at ht
      obtain ⟨table', h'⟩ := hI.running e t ht
      exact ⟨table', h'.mono hsub l⟩
  · rcases hflight src dst payload hp with hp | ⟨rfl, hdst, hpayload⟩
    · obtain ⟨hsrc, hdst, hpayload⟩ := hI.inFlight src dst payload hp
      exact ⟨hsub src hsrc, hsub dst hdst, hpayload⟩
    · exact ⟨(hstarted src).2 (Or.inl rfl), hdst, hpayload⟩

/-- A step of the network alone, which adds nothing new in flight. -/
theorem Invariant.of_inFlight (hI : Invariant setup ls w) {l : Step D}
    {F : List (D × D × StdString)} (hF : ∀ p ∈ F, p ∈ w.inFlight) :
    Invariant setup (ls ++ [l]) { w with inFlight := F } :=
  ⟨hI.started, fun d s hs => (hI.running d s hs).imp fun _ h => h.mono (fun _ hx => hx) l,
    fun src dst payload hp => hI.inFlight src dst payload (hF _ hp)⟩

/-! ## Deliveries -/

omit [DecidableEq D] in
/-- A datagram of `src` is read as the state of `src`, under its true address. -/
theorem acceptedPeer_eq {src : D} {payload selfId : StdString}
    (hpayload : (setup.selfPeer src).encode setup.lib = .ok payload) :
    DiscoveryService.acceptedPeer setup.lib selfId ⟨⟨setup.ip src⟩, Peer.self, payload⟩ =
      if DiscoveryService.isSelf selfId (setup.peer src) then none else some (setup.peer src) := by
  rw [DiscoveryService.acceptedPeer, DiscoveryPeer.decode_encode setup.lawful hpayload]
  rfl

/-- The delivery of a datagram of `src` to a running device `d` with a steady clock: it is
dropped, or `src` is upserted, and answered if it is new. -/
theorem onMessage_cases {started : List D} {d src : D} {s s' : DiscoveryService}
    {table : DiscoveryService.PeerTable} {payload : StdString} {clock : MessageClock}
    (hrun : Running setup ls started d s table)
    (hclock : Steady (readings d ls ++ [clock.seen, clock.stale, clock.broadcast]))
    (hpayload : (setup.selfPeer src).encode setup.lib = .ok payload)
    (h : s.onMessage setup.lib ⟨⟨setup.ip src⟩, Peer.self, payload⟩ clock = .ok s') :
    (DiscoveryService.isSelf (setup.deviceId d) (setup.peer src) = true ∧ s' = s) ∨
    (s'.selfPeer = s.selfPeer ∧ s'.broadcastClient = true ∧ src ≠ d ∧
      DiscoveryService.Represents (table.upsert (setup.peer src) clock.seen) s' ∧
      (table.HasKey (setup.deviceId src) → s'.broadcasts = s.broadcasts) ∧
      (¬ table.HasKey (setup.deviceId src) →
        ∃ p, (setup.selfPeer d).encode setup.lib = .ok p ∧
          s'.broadcasts = s.broadcasts ++ [p])) := by
  have hid : s.selfPeer.deviceId = setup.deviceId d := by
    rw [hrun.selfPeer]
    rfl
  rcases DiscoveryService.onMessage_eq_ok h with ⟨hnone, hsame⟩ | ⟨peer, hpeer, hself, hhandle⟩
  · -- the self filter is the only reason to drop it
    rw [acceptedPeer_eq hpayload, hid] at hnone
    refine Or.inl ⟨?_, hsame⟩
    by_contra hself
    rw [if_neg hself] at hnone
    cases hnone
  · rw [acceptedPeer_eq hpayload, hid] at hpeer
    rw [hid] at hself
    have hpeer' : setup.peer src = peer := by
      split at hpeer
      · cases hpeer
      · exact Option.some.inj hpeer
    subst hpeer'
    -- no device of the network says that it has gone
    have hgone : (setup.peer src).state ≠ .gone := nofun
    obtain ⟨hsame, hT, hold, hnew⟩ :=
      DiscoveryService.onPeer_seen hrun.represents (hid ▸ hself) hgone hhandle
    -- nothing is stale, neither the old entries nor the one just written
    have hfresh : ∀ e ∈ (table.upsert (setup.peer src) clock.seen).entries,
        DiscoveryService.isStale clock.stale e.2 = false := by
      intro e he
      rcases TimedTable.mem_upsert.1 he with rfl | ⟨he, -⟩
      · rw [List.append_cons] at hclock
        exact hclock.not_stale (List.mem_append_right _ (List.mem_singleton_self _))
          List.mem_cons_self
      · exact hclock.not_stale (hrun.seen e he) (List.mem_cons_of_mem _ List.mem_cons_self)
    rw [TimedTable.expire_eq_self hfresh] at hT
    refine Or.inr ⟨hsame.selfPeer, hsame.broadcastClient.trans hrun.client, ?_, hT, hold,
      fun hno => ?_⟩
    · rintro rfl
      simp [DiscoveryService.isSelf, Setup.peer, Setup.selfPeer] at hself
    · rw [← hrun.selfPeer]
      exact hnew hno hrun.client

/-- A delivery never throws: whatever is in flight can be delivered. -/
theorem deliver_enabled {d src : D} {k : ℕ} {payload : StdString} (hI : Invariant setup ls w)
    (hk : w.inFlight[k]? = some (src, d, payload)) (clock : MessageClock) :
    ∃ w', step setup w (.deliver d k clock) = some w' := by
  obtain ⟨-, hd, hpayload⟩ := hI.inFlight src d payload (List.mem_of_getElem? hk)
  obtain ⟨s, hs⟩ := Option.ne_none_iff_exists'.1 ((hI.started d).1 hd)
  obtain ⟨table, hrun⟩ := hI.running d s hs
  obtain ⟨self, hself⟩ := hrun.encodes
  -- the payload is an encoded state, so it decodes
  obtain ⟨s', hs'⟩ := (DiscoveryService.onMessage_ok_iff (hrun.selfPeer ▸ hself)
    ⟨⟨setup.ip src⟩, Peer.self, payload⟩ clock).2
    ⟨_, DiscoveryPeer.decode_encode setup.lawful hpayload⟩
  simp only [step, hk, hs, hs', if_true]
  exact ⟨_, rfl⟩

end Discovery

end Keyleport
