import Keyleport.Discovery.Candidates
import Keyleport.Discovery.Exceptions
import Keyleport.Session.Pinning

/-!
# Discovery and session together

The session takes its list of devices from the discovery service, and only a listed device can be
accepted or clicked. So a host has to be heard by the discovery service before it can have any
effect on the session. The two services are put together here: the store holds one list, which the
steps of the discovery service write and those of the session read.

* `device_refines`: the two services together run as each of them does by itself.
* `trust_chain`: whoever is listed, pinned, sent to or injected from was heard before.
* `unheard_host_inert`: the messages of a host that was not heard change nothing.
-/

namespace Keyleport

/-- A program with its discovery service and its session. -/
structure Device where
  discovery : DiscoveryService
  session : Session
deriving DecidableEq, Repr

namespace Device

/-- Whether a step of the session is the write of the list of devices. -/
def isListing : Session.Step → Bool
  | .setAvailableDevices _ => true
  | .message _ | .connectClick _ | .runUiTask => false

/-- The steps of a device, in any order. -/
inductive Step where
  | discovery (l : DiscoveryService.Step)
  | session (l : Session.Step)

/-- The device id that the session sends is that of the discovery service. -/
def host (hasEmitter : Bool) (s : Device) : Host := ⟨s.discovery.selfPeer.deviceId, hasEmitter⟩

/-- One step. The list of devices is written by the discovery service only. -/
def step (lib : Nlohmann) (hasEmitter : Bool) (s : Device) : Step → Option Device
  | .discovery l => do
      let discovery ← DiscoveryService.step lib s.discovery l
      return ⟨discovery, { s.session with availableDevices := discovery.availableDevices }⟩
  | .session l =>
      if isListing l then none
      else do
        let session ← Session.step lib (s.host hasEmitter) s.session l
        return { s with session := session }

/-- The device as a machine. -/
def machine (lib : Nlohmann) (hasEmitter : Bool) : Machine Device Step := ⟨step lib hasEmitter⟩

/-- The step of the discovery service. -/
def Step.discovery? : Step → Option DiscoveryService.Step
  | discovery l => some l
  | session _ => none

/-- What the steps of a device are to its session: the discovery service stores its list. -/
def sessionSteps (lib : Nlohmann) : DiscoveryService → List Step → List Session.Step
  | _, [] => []
  | d, .discovery l :: ls =>
      match DiscoveryService.step lib d l with
      | some d' => .setAvailableDevices d'.availableDevices :: sessionSteps lib d' ls
      | none => []
  | d, .session l :: ls => l :: sessionSteps lib d ls

variable {lib : Nlohmann} {hasEmitter : Bool} {s s' : Device}

/-- What a step does. -/
theorem step_cases {l : Step} (h : step lib hasEmitter s l = some s') :
    (∃ l' d, l = .discovery l' ∧ DiscoveryService.step lib s.discovery l' = some d ∧
      s' = ⟨d, { s.session with availableDevices := d.availableDevices }⟩) ∨
    (∃ l' t, l = .session l' ∧ isListing l' = false ∧
      Session.step lib (s.host hasEmitter) s.session l' = some t ∧
      s' = { s with session := t }) := by
  cases l with
  | discovery l' =>
    obtain ⟨d, hd, h⟩ := Option.bind_eq_some_iff.1 h
    exact Or.inl ⟨l', d, rfl, hd, (Option.some.inj h).symm⟩
  | session l' =>
    obtain ⟨hl, h⟩ := Option.ite_none_left_eq_some.1 h
    obtain ⟨t, ht, h⟩ := Option.bind_eq_some_iff.1 h
    exact Or.inr ⟨l', t, rfl, Bool.eq_false_iff.2 hl, ht, (Option.some.inj h).symm⟩

/-- No step of the discovery service changes the device id. -/
theorem deviceId_of_step {d d' : DiscoveryService} {l : DiscoveryService.Step}
    (h : DiscoveryService.step lib d l = some d') :
    d'.selfPeer.deviceId = d.selfPeer.deviceId := by
  by_cases hl : ∃ now, l = .cleanup now
  · obtain ⟨now, rfl⟩ := hl
    exact (DiscoveryService.cleanup_spec (Except.eq_ok_of_toOption h)).2.1
  · have hsaid := DiscoveryService.says_of_step (fun now heq => hl ⟨now, heq⟩) h
    rw [hsaid.selfPeer]

/-- Of the session's state, only the discovery service writes the list of devices. -/
theorem availableDevices_of_step {t t' : Session} {l : Session.Step} {host : Host}
    (hl : isListing l = false) (h : Session.step lib host t l = some t') :
    t'.availableDevices = t.availableDevices := by
  rcases Session.step_cases h with ⟨msg, rfl, hmsg⟩ | ⟨d, rfl, -, -, -, hclick⟩ |
    ⟨task, tasks, rfl, -, rfl⟩ | ⟨ds, rfl, -⟩
  · exact (Session.messageEffect_of_onMessage hmsg).availableDevices
  · obtain ⟨_, _, -, -, rfl⟩ := Session.connectClicked_eq_ok hclick
    rfl
  · obtain ⟨onPackage, id, hscene⟩ := Session.setScene_task host { t with uiTasks := tasks } task
    rw [hscene]
  · cases hl

/-- A run of a device is a run of its discovery service and a run of its session. -/
theorem run_refines {ls : List Step}
    (hlist : s.session.availableDevices = s.discovery.availableDevices)
    (h : (machine lib hasEmitter).run s ls = some s') :
    (DiscoveryService.machine lib).run s.discovery (ls.filterMap Step.discovery?) =
      some s'.discovery ∧
    (Session.machine lib (s.host hasEmitter)).run s.session (sessionSteps lib s.discovery ls) =
      some s'.session ∧
    s'.session.availableDevices = s'.discovery.availableDevices := by
  induction ls generalizing s with
  | nil =>
    obtain rfl := Option.some.inj h
    exact ⟨rfl, rfl, hlist⟩
  | cons l ls ih =>
    obtain ⟨t, ht, hrun⟩ := Option.bind_eq_some_iff.1 h
    rcases step_cases ht with ⟨l', d, rfl, hd, rfl⟩ | ⟨l', t', rfl, hl, ht', rfl⟩
    · obtain ⟨hdiscovery, hsession, hlist'⟩ := ih rfl hrun
      rw [sessionSteps, hd]
      refine ⟨Option.bind_eq_some_iff.2 ⟨d, hd, hdiscovery⟩, ?_, hlist'⟩
      -- the device id that the session sends stays the same
      rw [host, deviceId_of_step hd] at hsession
      exact hsession
    · have hlist₁ := (availableDevices_of_step hl ht').trans hlist
      obtain ⟨hdiscovery, hsession, hlist'⟩ := ih hlist₁ hrun
      rw [sessionSteps]
      exact ⟨hdiscovery, Option.bind_eq_some_iff.2 ⟨t', ht', hsession⟩, hlist'⟩

/-! ## Hosts without effect -/

/-- The entries of the table are those that were there, or the peer of the datagram. -/
theorem discoveredPeers_of_step {d d' : DiscoveryService} {l : DiscoveryService.Step}
    {table : DiscoveryService.PeerTable} (hT : DiscoveryService.Represents table d)
    (h : DiscoveryService.step lib d l = some d') :
    (∃ table', DiscoveryService.Represents table' d') ∧
    ∀ p ∈ d'.discoveredPeers, p ∈ d.discoveredPeers ∨ ∃ msg clock, l = .message msg clock ∧
      DiscoveryService.acceptedPeer lib d.selfPeer.deviceId msg = some p := by
  -- the entries of a table in the new state, by those of the table before
  have hback {table' : DiscoveryService.PeerTable} (hT' : DiscoveryService.Represents table' d')
      {P : DiscoveryPeer → Prop} (hsub : ∀ e ∈ table'.entries, e ∈ table.entries ∨ P e.1) :
      ∀ p ∈ d'.discoveredPeers, p ∈ d.discoveredPeers ∨ P p := by
    intro p hp
    rw [hT'.1] at hp
    obtain ⟨e, he, rfl⟩ := List.mem_map.1 hp
    rw [hT.1]
    exact (hsub e he).imp_left (List.mem_map_of_mem)
  cases l with
  | message msg clock =>
    rcases DiscoveryService.onMessage_eq_ok (DiscoveryService.message_of_step h).2 with
      ⟨-, rfl⟩ | ⟨peer, hpeer, hself, hhandle⟩
    · exact ⟨⟨table, hT⟩, fun p hp => Or.inl hp⟩
    · by_cases hgone : peer.state = .gone
      · obtain ⟨-, hT', -⟩ := DiscoveryService.onPeer_gone hT hself hgone hhandle
        exact ⟨⟨_, hT'⟩, hback hT' fun e he => Or.inl (TimedTable.mem_remove.1 he).1⟩
      · obtain ⟨-, hT', -⟩ := DiscoveryService.onPeer_seen hT hself hgone hhandle
        refine ⟨⟨_, hT'⟩, hback hT' fun e he => ?_⟩
        rcases TimedTable.mem_upsert.1 (TimedTable.mem_expire.1 he).1 with rfl | ⟨he, -⟩
        · exact Or.inr ⟨msg, clock, rfl, hpeer⟩
        · exact Or.inl he
  | update broadcast stale =>
    obtain ⟨-, hT', -⟩ := DiscoveryService.update_spec hT (Except.eq_ok_of_toOption h)
    exact ⟨⟨_, hT'⟩, hback hT' fun e he => Or.inl (TimedTable.mem_expire.1 he).1⟩
  | cleanup now =>
    obtain ⟨hT', -, -⟩ := DiscoveryService.cleanup_spec (Except.eq_ok_of_toOption h)
    exact ⟨⟨_, hT'⟩, hback hT' fun e he => absurd he List.not_mem_nil⟩

/-- Handling a message pins nobody new, or the address of a listed device. -/
theorem pinnedPeer_onMessage {t t' : Session} {msg : Message}
    (h : Session.onMessage lib t msg = .ok t') :
    t'.pinnedPeer = t.pinnedPeer ∨ ∃ c ∈ t.availableDevices, t'.pinnedPeer = some ⟨c.ip⟩ := by
  cases hmsg : t.ignores msg with
  | true =>
    rw [Session.onMessage_of_ignores hmsg] at h
    exact Or.inl (congrArg Session.pinnedPeer (Except.ok.inj h).symm)
  | false =>
    obtain ⟨package, -, hemit⟩ := Session.onMessage_eq_ok hmsg h
    refine And.right (a := t'.availableDevices = t.availableDevices) ?_
    refine EventEmitter.emit_invariant (P := fun u => u.availableDevices = t.availableDevices ∧
      (u.pinnedPeer = t.pinnedPeer ∨ ∃ c ∈ t.availableDevices, u.pinnedPeer = some ⟨c.ip⟩))
      (fun cb _ u u' ⟨hlist, hpin⟩ hinv => ?_) ⟨rfl, Or.inl rfl⟩ hemit
    cases cb with
    | homeScene =>
      rcases Session.homeOnPackage_cases hinv with rfl | ⟨c, hc, -, -, rfl⟩
      · exact ⟨hlist, hpin⟩
      · exact ⟨hlist, Or.inr ⟨c, hlist ▸ hc, rfl⟩⟩
    | receiverScene emitter =>
      rcases Session.receiverOnPackage_cases hinv with rfl | ⟨event, rfl⟩
      · exact ⟨hlist, hpin⟩
      · exact ⟨hlist, hpin⟩

/-- A request of a host that is not listed is not accepted. -/
theorem homeOnPackage_of_unlisted {package : TypedPackage} {t : Session}
    (h : ∀ d ∈ t.availableDevices, d.ip ≠ package.metaMessage.sender.ipAddress) :
    Session.homeOnPackage lib package t = .ok t := by
  have hfind : (t.availableDevices.find? fun d =>
      d.ip = package.metaMessage.sender.ipAddress) = none :=
    List.find?_eq_none.2 fun d hd => by simpa using h d hd
  rw [Session.homeOnPackage]
  split
  next =>
    obtain ⟨request, hrequest⟩ := BecomeReceiverPackage.decode_ok lib package.payload
    rw [hrequest]
    simp only [bind, Except.bind, hfind]
    rfl
  next => rfl

/-- Without a pin, a message of a host that is not listed changes nothing. -/
theorem onMessage_of_unlisted {t : Session} {msg : Message} (ht : t.PinInvariant)
    (hpin : t.pinnedPeer = none) (h : ∀ d ∈ t.availableDevices, d.ip ≠ msg.sender.ipAddress) :
    Session.onMessage lib t msg = .ok t := by
  have hign : t.ignores msg = false := by rw [Session.ignores, hpin]
  obtain ⟨package, hpackage⟩ := TypedPackage.decode_ok lib msg.payload
  rw [Session.onMessage, hign, hpackage]
  have hhome := (ht.unpinned hpin).2.2
  show t.onPackage.emit _ t = .ok t
  rw [EventEmitter.emit]
  -- only the home scene is subscribed
  generalize t.onPackage.callbacks = callbacks at hhome
  induction callbacks with
  | nil => rfl
  | cons cb callbacks ih =>
    obtain ⟨rfl, hrest⟩ := List.forall_mem_cons.1 hhome
    have hfirst : Session.invoke lib { package with metaMessage := msg } .homeScene t = .ok t :=
      homeOnPackage_of_unlisted h
    rw [List.foldlM_cons, hfirst]
    exact ih hrest

/-- A set of hosts that have no effect: none of their addresses is known, listed, pinned, sent to
or injected from. -/
structure Avoids (H : StdString → Prop) (s : Device) : Prop where
  represents : ∃ table, DiscoveryService.Represents table s.discovery
  peers : ∀ p ∈ s.discovery.discoveredPeers, ¬ H p.ipAddress
  candidates : ∀ d ∈ s.discovery.availableDevices, ¬ H d.ip
  listed : ∀ d ∈ s.session.availableDevices, ¬ H d.ip
  pin : s.session.PinInvariant
  pinned : ∀ p, s.session.pinnedPeer = some p → ¬ H p.ipAddress
  sent : ∀ m ∈ s.session.sent, ¬ H m.recipient.ipAddress
  injected : ∀ i ∈ s.session.injected, ¬ H i.source

/-- A step that is no accepted datagram of one of the hosts. -/
def Step.Spares (lib : Nlohmann) (selfId : StdString) (H : StdString → Prop) (l : Step) : Prop :=
  ∀ msg clock peer, l = .discovery (.message msg clock) →
    DiscoveryService.acceptedPeer lib selfId msg = some peer → ¬ H msg.sender.ipAddress

variable {H : StdString → Prop}

/-- A step of the discovery service keeps hosts without effect that it does not hear. -/
theorem Avoids.discovery {l : DiscoveryService.Step} {d : DiscoveryService} (hs : Avoids H s)
    (hl : Step.Spares lib s.discovery.selfPeer.deviceId H (.discovery l))
    (h : DiscoveryService.step lib s.discovery l = some d) :
    Avoids H ⟨d, { s.session with availableDevices := d.availableDevices }⟩ := by
  obtain ⟨table, hT⟩ := hs.represents
  obtain ⟨hT', hback⟩ := discoveredPeers_of_step hT h
  have hpeers : ∀ p ∈ d.discoveredPeers, ¬ H p.ipAddress := by
    intro p hp
    rcases hback p hp with hp | ⟨msg, clock, rfl, hpeer⟩
    · exact hs.peers p hp
    · rw [(DiscoveryService.acceptedPeer_eq_some hpeer).1]
      exact hl msg clock p rfl hpeer
  have hcandidates : ∀ c ∈ d.availableDevices, ¬ H c.ip := by
    rcases DiscoveryService.availableDevices_step h with hmade | ⟨hsame, -⟩
    · -- the list is made again from the table
      rw [hmade]
      intro c hc
      obtain ⟨p, hp, rfl⟩ := List.mem_map.1 hc
      exact hpeers p (List.mem_filter.1 hp).1
    · rw [hsame]
      exact hs.candidates
  exact ⟨hT', hpeers, hcandidates, hcandidates, ⟨hs.pin.connected, hs.pin.unpinned,
    hs.pin.injected⟩, hs.pinned, hs.sent, hs.injected⟩

/-- A step of the session keeps hosts without effect. -/
theorem Avoids.session {l : Session.Step} {t : Session} {host : Host} (hs : Avoids H s)
    (hl : isListing l = false) (h : Session.step lib host s.session l = some t) :
    Avoids H { s with session := t } := by
  have hlist := availableDevices_of_step hl h
  have hpin : ∀ p, t.pinnedPeer = some p → ¬ H p.ipAddress := by
    intro p hp
    rcases Session.step_cases h with ⟨msg, rfl, hmsg⟩ | ⟨d, rfl, -, hd, -, hclick⟩ |
      ⟨task, tasks, rfl, -, rfl⟩ | ⟨ds, rfl, -⟩
    · rcases pinnedPeer_onMessage hmsg with hsame | ⟨c, hc, hpinned⟩
      · exact hs.pinned p (hsame ▸ hp)
      · obtain rfl := Option.some.inj (hpinned.symm.trans hp)
        exact hs.listed c hc
    · obtain ⟨_, _, -, -, rfl⟩ := Session.connectClicked_eq_ok hclick
      obtain rfl := Option.some.inj hp
      exact hs.listed d hd
    · obtain ⟨onPackage, id, hscene⟩ :=
        Session.setScene_task host { s.session with uiTasks := tasks } task
      rw [hscene] at hp
      exact hs.pinned p hp
    · cases hl
  have hsent : ∀ m ∈ t.sent, ¬ H m.recipient.ipAddress := by
    rcases Session.step_cases h with ⟨msg, rfl, hmsg⟩ | ⟨d, rfl, -, hd, -, hclick⟩ |
      ⟨task, tasks, rfl, -, rfl⟩ | ⟨ds, rfl, -⟩
    · rw [(Session.messageEffect_of_onMessage hmsg).sent]
      exact hs.sent
    · -- the request goes to the device of the button
      obtain ⟨_, payload, -, -, rfl⟩ := Session.connectClicked_eq_ok hclick
      intro m hm
      rcases List.mem_append.1 hm with hm | hm
      · exact hs.sent m hm
      · obtain rfl := List.mem_singleton.1 hm
        exact hs.listed d hd
    · obtain ⟨onPackage, id, hscene⟩ :=
        Session.setScene_task host { s.session with uiTasks := tasks } task
      rw [hscene]
      exact hs.sent
    · cases hl
  have hinjected : ∀ i ∈ t.injected, ¬ H i.source := by
    rcases Session.injected_of_step hs.pin h with hsame | ⟨msg, -, hsame | ⟨hmsg, new, hnew, hall⟩⟩
    · rw [hsame]
      exact hs.injected
    · rw [hsame]
      exact hs.injected
    · -- the events injected come from the peer that was pinned
      rw [hnew]
      intro i hi
      rcases List.mem_append.1 hi with hi | hi
      · exact hs.injected i hi
      · rw [(hall i hi).1]
        exact hs.pinned _ hmsg
  exact ⟨hs.represents, hs.peers, hs.candidates, hlist ▸ hs.listed, hs.pin.step h, hpin, hsent,
    hinjected⟩

/-- Every step keeps hosts without effect that it does not hear. -/
theorem Avoids.step {l : Step} (hs : Avoids H s)
    (hl : l.Spares lib s.discovery.selfPeer.deviceId H)
    (h : Device.step lib hasEmitter s l = some s') :
    Avoids H s' ∧ s'.discovery.selfPeer.deviceId = s.discovery.selfPeer.deviceId := by
  rcases step_cases h with ⟨l', d, rfl, hd, rfl⟩ | ⟨l', t, rfl, hlisting, ht, rfl⟩
  · exact ⟨hs.discovery hl hd, deviceId_of_step hd⟩
  · exact ⟨hs.session hlisting ht, rfl⟩

/-- After the two services were started, every set of hosts is without effect. -/
theorem Avoids.init {deviceId deviceName platform : StdString} {first second : UInt64}
    {d : DiscoveryService}
    (hinit : DiscoveryService.init lib deviceId deviceName platform first second = .ok d) :
    Avoids H ⟨d, Session.init⟩ := by
  obtain ⟨hlist, hpeers⟩ := DiscoveryService.availableDevices_init hinit
  refine ⟨⟨_, (DiscoveryService.init_spec hinit).1⟩, ?_, ?_, by simp [Session.init,
    Session.homeDidMount], .init, ?_, ?_, ?_⟩
  · rw [hpeers]
    simp
  · rw [hlist]
    simp
  · intro p hp
    cases hp
  · intro m hm
    cases hm
  · intro i hi
    cases hi

/-- A message of a host without effect changes nothing. -/
theorem onMessage_of_avoids {msg : Message} (hs : Avoids H s) (hmsg : H msg.sender.ipAddress) :
    Session.onMessage lib s.session msg = .ok s.session := by
  cases hpin : s.session.pinnedPeer with
  | none =>
    have hunlisted : ∀ d ∈ s.session.availableDevices, d.ip ≠ msg.sender.ipAddress :=
      fun d hd heq => hs.listed d hd (heq ▸ hmsg)
    exact onMessage_of_unlisted hs.pin hpin hunlisted
  | some p =>
    have hne : msg.sender.ipAddress ≠ p.ipAddress := fun heq => hs.pinned p hpin (heq ▸ hmsg)
    exact Session.onMessage_of_ignores (by simpa [Session.ignores, hpin] using hne)

theorem step_of_avoids {msg : Message} (hs : Avoids H s) (hmsg : H msg.sender.ipAddress) :
    step lib hasEmitter s (.session (.message msg)) = some s := by
  have hok : Session.step lib (s.host hasEmitter) s.session (.message msg) = some s.session := by
    rw [Session.step, onMessage_of_avoids hs hmsg]
    rfl
  simp only [step, isListing, Bool.false_eq_true, if_false, hok]
  rfl

/-- A run keeps hosts without effect that it does not hear. -/
theorem Avoids.run {ls : List Step} (hs : Avoids H s)
    (hls : ∀ l ∈ ls, l.Spares lib s.discovery.selfPeer.deviceId H)
    (h : (machine lib hasEmitter).run s ls = some s') :
    Avoids H s' ∧ s'.discovery.selfPeer.deviceId = s.discovery.selfPeer.deviceId := by
  refine Machine.run_invariant_of_forall
    (I := fun t => Avoids H t ∧ t.discovery.selfPeer.deviceId = s.discovery.selfPeer.deviceId)
    (P := Step.Spares lib s.discovery.selfPeer.deviceId H) ?_ hls ⟨hs, rfl⟩ h
  rintro t l t' hl ⟨ht, hself⟩ hstep
  obtain ⟨ht', hself'⟩ := ht.step (hself ▸ hl) hstep
  exact ⟨ht', hself'.trans hself⟩

/-- An address that has an effect on a session: that of a listed device, of the pinned peer or of
the connected device, of the recipient of a message sent, or of the source of an event injected. -/
def HasEffect (s : Session) (ip : StdString) : Prop :=
  (∃ c ∈ s.availableDevices, c.ip = ip) ∨
  (∃ p, s.pinnedPeer = some p ∧ p.ipAddress = ip) ∨
  (∃ c, s.connectedDevice = some c ∧ c.ip = ip) ∨
  (∃ m ∈ s.sent, m.recipient.ipAddress = ip) ∨
  ∃ i ∈ s.injected, i.source = ip

/-- A host without effect has none. -/
theorem Avoids.not_of_hasEffect {ip : StdString} (hs : Avoids H s)
    (hip : HasEffect s.session ip) : ¬ H ip := by
  rcases hip with ⟨c, hc, rfl⟩ | ⟨p, hp, rfl⟩ | ⟨c, hc, rfl⟩ | ⟨m, hm, rfl⟩ | ⟨i, hi, rfl⟩
  · exact hs.listed c hc
  · exact hs.pinned p hp
  · exact hs.pinned _ (hs.pin.connected c hc)
  · exact hs.sent m hm
  · exact hs.injected i hi

/-- Whoever has an effect was heard, and is not the loopback address. -/
theorem heard_of_hasEffect {deviceId deviceName platform : StdString} {first second : UInt64}
    {d : DiscoveryService} {ls : List Step} {ip : StdString}
    (hinit : DiscoveryService.init lib deviceId deviceName platform first second = .ok d)
    (h : (machine lib hasEmitter).run ⟨d, Session.init⟩ ls = some s)
    (hip : HasEffect s.session ip) : ip ≠ DiscoveryService.selfIpAddress ∧
    ∃ msg clock peer, .discovery (.message msg clock) ∈ ls ∧
      DiscoveryService.acceptedPeer lib deviceId msg = some peer ∧ msg.sender.ipAddress = ip := by
  -- the hosts that no accepted datagram of the run came from are without effect
  let H : StdString → Prop := fun ip => ∀ msg clock peer,
    Step.discovery (.message msg clock) ∈ ls →
      DiscoveryService.acceptedPeer lib deviceId msg = some peer → msg.sender.ipAddress ≠ ip
  have hself : d.selfPeer.deviceId = deviceId := by rw [(DiscoveryService.init_spec hinit).2.1]
  have hs : Avoids H s := by
    refine (Avoids.run (Avoids.init hinit) (fun l hl msg clock peer heq hpeer hH => ?_) h).1
    subst heq
    exact hH msg clock peer hl (hself ▸ hpeer) rfl
  have hheard := hs.not_of_hasEffect hip
  simp only [H, not_forall, not_not] at hheard
  obtain ⟨msg, clock, peer, hmem, hpeer, rfl⟩ := hheard
  obtain ⟨haddress, hloopback, -⟩ := DiscoveryService.acceptedPeer_eq_some hpeer
  exact ⟨haddress ▸ hloopback, msg, clock, peer, hmem, hpeer, rfl⟩

/-- Whether a step is something else than a message of a host of a set. -/
def Step.keeps (H : StdString → Bool) : Step → Bool
  | .session (.message msg) => !H msg.sender.ipAddress
  | _ => true

end Device

/-- The device `a` hears `10.0.0.2`, accepts its request, shows the receiver scene and receives an
event. In between `10.0.0.3`, which it does not hear, sends a request too. -/
def Device.hearAndAccept : List Device.Step :=
  [.discovery (.message ⟨⟨.ofString "10.0.0.2"⟩, .self, .ofString "\x7b\"device_id\":\"b\"\x7d"⟩
      ⟨1, 1, 1⟩),
    .session (.message ⟨⟨.ofString "10.0.0.3"⟩, .self, .ofString
      "\x7b\"__typename\":\"become_receiver\",\"payload\":\"\"\x7d"⟩),
    .session (.message ⟨⟨.ofString "10.0.0.2"⟩, .self, .ofString
      "\x7b\"__typename\":\"become_receiver\",\"payload\":\"\"\x7d"⟩),
    .session .runUiTask,
    .session (.message ⟨⟨.ofString "10.0.0.2"⟩, .self, .ofString
      "\x7b\"__typename\":\"keyboard_input\",\"payload\":\"\x7b\\\"code\\\":30\x7d\"\x7d"⟩)]

open Device in
/-- The device `a` starts, and after this run an event of `10.0.0.2` is injected. -/
theorem Device.exists_hearAndAccept : ∃ d s,
    DiscoveryService.init JsonText.nlohmann (.ofString "a") [] [] 0 0 = .ok d ∧
      (machine JsonText.nlohmann true).run ⟨d, Session.init⟩ hearAndAccept = some s ∧
      s.session.injected.map Injection.source = [.ofString "10.0.0.2"] := by
  have hrun : ∃ d ∈ (DiscoveryService.init JsonText.nlohmann (.ofString "a") [] [] 0 0).toOption,
      ∃ s ∈ (machine JsonText.nlohmann true).run ⟨d, Session.init⟩ hearAndAccept,
      s.session.injected.map Injection.source = [.ofString "10.0.0.2"] := by
    decide +kernel
  obtain ⟨d, hd, s, hs, hinjected⟩ := hrun
  exact ⟨d, s, Except.eq_ok_of_toOption hd, hs, hinjected⟩

open Device in
/-- A device runs as its parts do. In every state of a program with its discovery service and its
session, from `init` on and over any interleaving of their steps, the list of the session is that of
the discovery service: only the discovery service writes it. The two share nothing else but the
device id, which never changes, so each of them is where its own steps, with the lists stored for
the session, bring it by itself. -/
theorem device_refines {lib : Nlohmann} {hasEmitter : Bool}
    {deviceId deviceName platform : StdString} {first second : UInt64} {d : DiscoveryService}
    {s : Device} {ls : List Step}
    (hinit : DiscoveryService.init lib deviceId deviceName platform first second = .ok d)
    (h : (machine lib hasEmitter).run ⟨d, Session.init⟩ ls = some s) :
    (DiscoveryService.machine lib).run d (ls.filterMap Step.discovery?) = some s.discovery ∧
    (Session.machine lib ⟨deviceId, hasEmitter⟩).run Session.init (sessionSteps lib d ls) =
      some s.session ∧
    s.session.availableDevices = s.discovery.availableDevices := by
  have hlist : (⟨d, Session.init⟩ : Device).session.availableDevices = d.availableDevices :=
    (DiscoveryService.availableDevices_init hinit).1.symm
  have hself := (DiscoveryService.init_spec hinit).2.1
  have hrun := run_refines hlist h
  rw [host, hself] at hrun
  exact hrun

open Device in
/-- After this run the session lists what the discovery service knows. -/
theorem device_refines_hearAndAccept : ∃ d s,
    (machine JsonText.nlohmann true).run ⟨d, Session.init⟩ hearAndAccept = some s ∧
      (DiscoveryService.machine JsonText.nlohmann).run d
        (hearAndAccept.filterMap Step.discovery?) = some s.discovery ∧
      s.session.availableDevices = s.discovery.availableDevices := by
  obtain ⟨d, s, hinit, hs, -⟩ := exists_hearAndAccept
  obtain ⟨hdiscovery, -, hlist⟩ := device_refines hinit hs
  exact ⟨d, s, hs, hdiscovery, hlist⟩

open Device in
/-- The chain of trust. In every state of a device, whoever has an effect on the session was heard
before: for the address of each listed device, of the pinned peer and of the connected device, of
the recipient of each message sent and of the source of each event injected, the discovery service
has accepted a datagram from that address earlier in the run. So none of them is the loopback
address. -/
theorem trust_chain {lib : Nlohmann} {hasEmitter : Bool} {deviceId deviceName platform : StdString}
    {first second : UInt64} {d : DiscoveryService} {s : Device} {ls : List Step}
    (hinit : DiscoveryService.init lib deviceId deviceName platform first second = .ok d)
    (h : (machine lib hasEmitter).run ⟨d, Session.init⟩ ls = some s) (ip : StdString)
    (hip : (∃ c ∈ s.session.availableDevices, c.ip = ip) ∨
      (∃ p, s.session.pinnedPeer = some p ∧ p.ipAddress = ip) ∨
      (∃ c, s.session.connectedDevice = some c ∧ c.ip = ip) ∨
      (∃ m ∈ s.session.sent, m.recipient.ipAddress = ip) ∨
      ∃ i ∈ s.session.injected, i.source = ip) :
    ip ≠ DiscoveryService.selfIpAddress ∧
    ∃ msg clock peer, .discovery (.message msg clock) ∈ ls ∧
      DiscoveryService.acceptedPeer lib deviceId msg = some peer ∧ msg.sender.ipAddress = ip := by
  exact heard_of_hasEffect hinit h hip

open Device in
/-- The event injected in this run came from a host that was heard. -/
theorem trust_chain_hearAndAccept :
    StdString.ofString "10.0.0.2" ≠ DiscoveryService.selfIpAddress ∧
    ∃ msg clock peer, .discovery (.message msg clock) ∈ hearAndAccept ∧
      DiscoveryService.acceptedPeer JsonText.nlohmann (.ofString "a") msg = some peer ∧
      msg.sender.ipAddress = .ofString "10.0.0.2" := by
  obtain ⟨d, s, hinit, hs, hinjected⟩ := exists_hearAndAccept
  obtain ⟨i, hi, hsource⟩ := List.mem_map.1 (hinjected ▸ List.mem_cons_self)
  exact trust_chain hinit hs _ (Or.inr (Or.inr (Or.inr (Or.inr ⟨i, hi, hsource⟩))))

open Device in
/-- A host that is not heard is inert. For every set of hosts from whose addresses the discovery
service accepts no datagram during a run, the messages that these hosts send to the session, with
whatever content and at any time, change nothing: the run without them has the same outcome. In
particular they cannot bring the program down. -/
theorem unheard_host_inert {lib : Nlohmann} {hasEmitter : Bool}
    {deviceId deviceName platform : StdString} {first second : UInt64} {d : DiscoveryService}
    {ls : List Step} (H : StdString → Bool)
    (hinit : DiscoveryService.init lib deviceId deviceName platform first second = .ok d)
    (hls : ∀ msg clock peer, .discovery (.message msg clock) ∈ ls →
      DiscoveryService.acceptedPeer lib deviceId msg = some peer → H msg.sender.ipAddress = false) :
    (machine lib hasEmitter).run ⟨d, Session.init⟩ (ls.filter (Step.keeps H)) =
      (machine lib hasEmitter).run ⟨d, Session.init⟩ ls := by
  have hself : d.selfPeer.deviceId = deviceId := by rw [(DiscoveryService.init_spec hinit).2.1]
  refine Machine.run_filter
    (I := fun t => Avoids (fun ip => H ip = true) t ∧ t.discovery.selfPeer.deviceId = deviceId)
    (P := Step.Spares lib deviceId fun ip => H ip = true) ?_ ?_ ?_ ⟨Avoids.init hinit, hself⟩
  · rintro t l t' hl ⟨ht, ht₀⟩ hstep
    obtain ⟨ht', ht₁⟩ := ht.step (ht₀ ▸ hl) hstep
    exact ⟨ht', ht₁.trans ht₀⟩
  · rintro t l - ⟨ht, -⟩ hkeep
    -- the steps dropped are messages of these hosts
    cases l with
    | discovery l => cases hkeep
    | session l =>
      cases l with
      | message msg => exact step_of_avoids ht (by simpa [Step.keeps] using hkeep)
      | _ => cases hkeep
  · intro l hl msg clock peer heq hpeer
    subst heq
    exact Bool.eq_false_iff.1 (hls msg clock peer hl hpeer)

open Device in
/-- The request of `10.0.0.3` can be left out of this run. -/
theorem unheard_host_inert_request : ∃ d,
    DiscoveryService.init JsonText.nlohmann (.ofString "a") [] [] 0 0 = .ok d ∧
    (hearAndAccept.filter (Step.keeps fun ip => ip = .ofString "10.0.0.3")).length = 4 ∧
    (machine JsonText.nlohmann true).run ⟨d, Session.init⟩
        (hearAndAccept.filter (Step.keeps fun ip => ip = .ofString "10.0.0.3")) =
      (machine JsonText.nlohmann true).run ⟨d, Session.init⟩ hearAndAccept := by
  obtain ⟨d, s, hinit, -, -⟩ := exists_hearAndAccept
  refine ⟨d, hinit, by decide, unheard_host_inert _ hinit fun msg clock peer hmem _ => ?_⟩
  -- the one datagram of the run is from `10.0.0.2`
  simp only [hearAndAccept, List.mem_cons, Step.discovery.injEq,
    DiscoveryService.Step.message.injEq, reduceCtorEq, List.not_mem_nil, or_false] at hmem
  obtain ⟨rfl, -⟩ := hmem
  decide

end Keyleport
