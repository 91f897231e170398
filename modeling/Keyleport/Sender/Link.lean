import Keyleport.Lib.Json.RoundTrip
import Keyleport.Networking.Connection
import Keyleport.Sender.Remote
import Keyleport.Session.Pinning

/-!
# From the sender to the receiver

The path of an event through both programs: the sender flow hands it to the communication service,
which packs it, encodes the package and passes it to the UDP client; ENet carries what the client
hands over; the receiver's communication service decodes it, and the receiver scene hands it to the
emitter. Meanwhile the receiver handles messages of other hosts, UI tasks and new lists of devices.

ENet delivers what is sent reliably in the order of each connection, and the rest in any order. It
duplicates nothing, but a connection that ends takes along what is on its way.

* `Link.Receiving`: the receiver scene is shown and the sender pinned. Kept by every step.
* `link_refines`: a run is one of `RemoteInput`, with events as the texts they are sent as.
* `link_keys`, `link_motion`: where the pushed events are.
* `link_progress`: the receiver handles whatever is on its way.
-/

namespace Keyleport

/-- The sender's flow and UDP client, ENet's two channels, and the receiver's session. -/
structure Link where
  flow : SenderFlow
  client : UdpClient
  /-- By the client's numbers of its connections. -/
  reliable : Transit ℕ StdString
  unreliable : Transit ℕ StdString
  session : Session
deriving DecidableEq, Repr

namespace Link

/-- What does not change during a run. -/
structure Setup where
  lib : Nlohmann
  /-- The receiver's program. -/
  host : Host
  /-- The address the receiver sees the sender at. -/
  sender : Peer
  /-- The peer pinned at the sender. -/
  receiver : Peer

/-- A new flow, a client, empty channels and a session. -/
def start (client : UdpClient) (session : Session) : Link :=
  ⟨.init, client, .empty, .empty, session⟩

/-- The payload of an event: `keyboard_input_package::build`, then `typed_package::encode`. -/
def encodeEvent (lib : Nlohmann) (ev : InputEvent) : Except TypeError StdString := do
  let package ← KeyboardInputPackage.build lib ev
  package.encode lib

/-- The event that a payload is decoded to, if it is one. -/
def decodeEvent (lib : Nlohmann) (payload : StdString) : Option InputEvent := do
  let package ← (TypedPackage.decode lib payload).toOption
  if KeyboardInputPackage.is package then
    let decoded ← (KeyboardInputPackage.decode lib package.payload).toOption
    return decoded.event
  else none

/-- The events that payloads are decoded to. -/
def events (lib : Nlohmann) (payloads : List StdString) : List InputEvent :=
  payloads.filterMap (decodeEvent lib)

/-- The connection a packet takes, from the client before and after the send: the client's own, if
the packet was handed to ENet and accepted. -/
def wayOf (client after : UdpClient) (answers : SendAnswers) : Option ℕ :=
  if client.packets.length < after.packets.length ∧ answers.accepted then after.peer else none

/-- `send_package_reliable` or `send_package_unreliable` of a flow's event. -/
def send (setup : Setup) (answers : SendAnswers) (s : Link) (e : SentEvent) : Option Link := do
  let payload ← (encodeEvent setup.lib e.event).toOption
  let client ← s.client.sendImpl ⟨.self, setup.receiver, payload⟩ e.reliable answers
  let way := wayOf s.client client answers
  return if e.reliable then
      { s with client := client, reliable := s.reliable.accept way payload }
    else { s with client := client, unreliable := s.unreliable.accept way payload }

/-- The receiver handles a message with a payload. -/
def handle (setup : Setup) (s : Link) (payload : StdString) : Option Session :=
  Session.step setup.lib setup.host s.session (.message ⟨setup.sender, .self, payload⟩)

/-- A message from a peer. -/
def isFrom (p : Peer) : Session.Step → Bool
  | .message msg => msg.sender = p
  | _ => false

/-- The steps. -/
inductive Step where
  /-- A step of the flow, with the answers of ENet to what it sends. -/
  | flow (l : SenderFlow.Step) (answers : SendAnswers)
  /-- The sender's `communication_service::update`. -/
  | flush (polled : List (EnetEventType × EnetPeerState)) (idle : EnetPeerState)
  /-- The next packet of a connection arrives. -/
  | arriveReliable (connection : ℕ)
  | arriveUnreliable (p : ℕ × StdString → Bool)
  | loseReliable (p : ℕ × StdString → Bool)
  | loseUnreliable (p : ℕ × StdString → Bool)
  /-- Any other step of the receiver. -/
  | session (l : Session.Step)

/-- One step. What comes from the sender's address comes through the channels. -/
def step (setup : Setup) (s : Link) : Step → Option Link
  | .flow l answers => do
      let flow ← SenderFlow.step s.flow l
      let sent := flow.sent.drop s.flow.sent.length
      sent.foldlM (send setup answers) { s with flow := flow }
  | .flush polled idle => some { s with client := s.client.flushPendingMessages polled idle }
  | .arriveReliable connection => do
      let (payload, reliable) ← s.reliable.arrive (Transit.next connection)
      let session ← s.handle setup payload
      return { s with reliable := reliable, session := session }
  | .arriveUnreliable p => do
      let (payload, unreliable) ← s.unreliable.arrive p
      let session ← s.handle setup payload
      return { s with unreliable := unreliable, session := session }
  | .loseReliable p => do
      let reliable ← s.reliable.lose p
      return { s with reliable := reliable }
  | .loseUnreliable p => do
      let unreliable ← s.unreliable.lose p
      return { s with unreliable := unreliable }
  | .session l =>
      if isFrom setup.sender l then none
      else do
        let session ← Session.step setup.lib setup.host s.session l
        return { s with session := session }

/-- The link as a machine. -/
def machine (setup : Setup) : Machine Link Step := ⟨step setup⟩

/-! ## The text of an event -/

section Text

variable {lib : Nlohmann}

/-- The text an event is sent as. -/
def text (lib : Nlohmann) (ev : InputEvent) : StdString :=
  (encodeEvent lib ev).toOption.getD []

theorem encodeEvent_eq (hlib : lib.Lawful) (ev : InputEvent) :
    encodeEvent lib ev = .ok (text lib ev) ∧ ∃ package,
      TypedPackage.decode lib (text lib ev) = .ok package ∧
      KeyboardInputPackage.is package = true ∧
      KeyboardInputPackage.decode lib package.payload = .ok ⟨ev⟩ := by
  obtain ⟨payload, hbuild, hvalid, hevent⟩ := KeyboardInputPackage.build_ok hlib ev
  have hname : StdString.ValidUtf8 KeyboardInputPackage.typename := by decide
  obtain ⟨s, hs⟩ := hlib.dump_ok_iff.2
    (TypedPackage.validUtf8_toJson (p := ⟨_, payload, default⟩) hname hvalid)
  have hencode : encodeEvent lib ev = .ok s := by
    rw [encodeEvent, hbuild]
    exact hs
  have htext : text lib ev = s := by
    rw [text, hencode]
    rfl
  rw [htext]
  refine ⟨hencode, _, TypedPackage.decode_encode hlib hs, decide_eq_true rfl, ?_⟩
  rw [KeyboardInputPackage.decode, hevent]
  rfl

theorem decodeEvent_text (hlib : lib.Lawful) (ev : InputEvent) :
    decodeEvent lib (text lib ev) = some ev := by
  obtain ⟨-, package, hpackage, his, hdecode⟩ := encodeEvent_eq hlib ev
  rw [decodeEvent, hpackage]
  simp [Except.toOption, his, hdecode]

theorem events_text (hlib : lib.Lawful) (evs : List InputEvent) :
    events lib (evs.map (text lib)) = evs := by
  rw [events, List.filterMap_map]
  simp [decodeEvent_text hlib]

end Text

/-! ## The receiver -/

/-- The receiver scene is shown with an emitter and the sender is pinned. Another task in the
queue can only be a second request for the same scene. -/
structure Receiving (sender : Peer) (s : Session) : Prop where
  pinnedPeer : s.pinnedPeer = some sender
  scene : s.scene = .receiver
  callbacks : s.onPackage.callbacks = [.receiverScene true]
  uiTasks : ∀ task ∈ s.uiTasks, task = .setReceiverScene

/-- What a receiver injects for an event of the sender. -/
def injection (sender : Peer) (ev : InputEvent) : Injection := ⟨ev, sender.ipAddress, some sender⟩

theorem injection_injective (sender : Peer) : Function.Injective (injection sender) :=
  fun _ _ h => congrArg Injection.event h

section Receiver

variable {lib : Nlohmann} {host : Host} {sender : Peer} {s s' : Session}

/-- The text of an event is injected. -/
theorem Receiving.message (hs : Receiving sender s) (hlib : lib.Lawful) (ev : InputEvent) :
    Session.step lib host s (.message ⟨sender, .self, text lib ev⟩) =
      some { s with injected := s.injected ++ [injection sender ev] } := by
  obtain ⟨-, package, hpackage, his, hdecode⟩ := encodeEvent_eq hlib ev
  have hignores : s.ignores ⟨sender, .self, text lib ev⟩ = false := by
    simp [Session.ignores, hs.pinnedPeer]
  have hinvoke : Session.receiverOnPackage lib true
      { package with metaMessage := ⟨sender, .self, text lib ev⟩ } s =
        .ok { s with injected := s.injected ++ [injection sender ev] } := by
    have his' : KeyboardInputPackage.is
        { package with metaMessage := ⟨sender, .self, text lib ev⟩ } = true := his
    rw [Session.receiverOnPackage, his', Bool.and_self, if_pos rfl, hdecode, hs.pinnedPeer]
    rfl
  rw [Session.step, Session.onMessage, hignores, if_neg Bool.false_ne_true, hpackage]
  show ((s.onPackage.emit _ s).toOption : Option Session) = _
  rw [EventEmitter.emit, hs.callbacks, List.foldlM_cons]
  show ((Session.receiverOnPackage lib true _ s >>= _ : Except TypeError Session)).toOption = _
  rw [hinvoke]
  rfl

theorem Receiving.inject (hs : Receiving sender s) (injected : List Injection) :
    Receiving sender { s with injected := injected } :=
  ⟨hs.pinnedPeer, hs.scene, hs.callbacks, hs.uiTasks⟩

/-- No other step injects anything or ends the reception. -/
theorem Receiving.step {l : Session.Step} (hs : Receiving sender s)
    (hl : isFrom sender l = false) (h : Session.step lib host s l = some s') :
    Receiving sender s' ∧ s'.injected = s.injected := by
  rcases Session.step_cases h with ⟨msg, rfl, hmsg⟩ | ⟨d, rfl, hhome, -⟩ |
    ⟨task, tasks, rfl, htasks, rfl⟩ | ⟨ds, rfl, rfl⟩
  · -- another host is not pinned
    have hne : msg.sender ≠ sender := by simpa [isFrom] using hl
    have hignores : s.ignores msg = true := by
      simp only [Session.ignores, hs.pinnedPeer, decide_eq_true_eq]
      exact fun heq => hne (congrArg Peer.mk heq)
    rw [Session.onMessage_of_ignores hignores] at hmsg
    obtain rfl := Except.ok.inj hmsg
    exact ⟨hs, rfl⟩
  · rw [hs.scene] at hhome
    cases hhome
  · -- the scene is shown already
    have hall := hs.uiTasks
    rw [htasks, List.forall_mem_cons] at hall
    obtain ⟨rfl, hrest⟩ := hall
    have hsame : Session.setScene host { s with uiTasks := tasks } UiTask.setReceiverScene.scene =
        { s with uiTasks := tasks } := if_pos hs.scene
    rw [hsame]
    exact ⟨⟨hs.pinnedPeer, hs.scene, hs.callbacks, hrest⟩, rfl⟩
  · exact ⟨⟨hs.pinnedPeer, hs.scene, hs.callbacks, hs.uiTasks⟩, rfl⟩

end Receiver

/-! ## The refinement -/

/-- The link has the state of `t`: on its channels are the texts of the events, and the receiver
has injected the events since the start. -/
structure Refines (setup : Setup) (before : List Injection) (s : Link) (t : RemoteInput) :
    Prop where
  flow : s.flow = t.flow
  reliable : s.reliable = t.reliable.map (text setup.lib)
  unreliable : s.unreliable = t.unreliable.map (text setup.lib)
  receiving : Receiving setup.sender s.session
  injected : s.session.injected = before ++ t.injected.map (injection setup.sender)

variable {setup : Setup} {before : List Injection} {s s' : Link} {t : RemoteInput}

/-- A send changes the client, and a channel accepts the text. -/
theorem send_eq_some (hlib : setup.lib.Lawful) {answers : SendAnswers} {e : SentEvent}
    (h : send setup answers s e = some s') : ∃ way client, s' =
      let payload := text setup.lib e.event
      if e.reliable then
        { s with client := client, reliable := s.reliable.accept way payload }
      else
        { s with client := client, unreliable := s.unreliable.accept way payload } := by
  rw [send, (encodeEvent_eq hlib e.event).1] at h
  obtain ⟨client, -, h⟩ := Option.bind_eq_some_iff.1 (show (s.client.sendImpl
    ⟨.self, setup.receiver, text setup.lib e.event⟩ e.reliable answers >>= _) = some s' from h)
  exact ⟨_, client, (Option.some.inj h).symm⟩

/-- What arrives on a channel of texts is the text of the event that arrives. -/
theorem arrive_text {transit : Transit ℕ InputEvent} {p : ℕ × StdString → Bool}
    {payload : StdString} {after : Transit ℕ StdString}
    (h : (transit.map (text setup.lib)).arrive p = some (payload, after)) : ∃ ev transit',
      transit.arrive (p ∘ Prod.map id (text setup.lib)) = some (ev, transit') ∧
      payload = text setup.lib ev ∧ after = transit'.map (text setup.lib) := by
  rw [Transit.map_arrive] at h
  obtain ⟨⟨ev, transit'⟩, harrive, heq⟩ := Option.map_eq_some_iff.1 h
  obtain ⟨rfl, rfl⟩ := Prod.mk.inj heq
  exact ⟨ev, transit', harrive, rfl, rfl⟩

/-- A step of the link is a step of the abstract machine, or none. -/
theorem Refines.step (hlib : setup.lib.Lawful) (hst : Refines setup before s t)
    (ht : t.Invariant) {l : Step} (h : step setup s l = some s') :
    Refines setup before s' t ∨
      ∃ l' t', RemoteInput.step t l' = some t' ∧ Refines setup before s' t' := by
  obtain ⟨hflow, hreliable, hunreliable, hreceiving, hinjected⟩ := hst
  cases l with
  | flow l answers =>
    refine Or.inr ?_
    obtain ⟨flow, hstep, h⟩ := Option.bind_eq_some_iff.1 h
    rw [hflow] at hstep h
    obtain ⟨ls, hls⟩ := ht.flow
    have hflowStep : ∀ way, RemoteInput.step t (.flow l way) =
        some ((flow.sent.drop t.flow.sent.length).foldl (fun t e => t.accept way e)
          { t with flow := flow }) := by
      intro way
      rw [RemoteInput.step, hstep]
      rfl
    rcases RemoteInput.sent_concat (.run hls) hstep with hsent | ⟨e, hsent⟩
    · rw [hsent, List.drop_length] at h hflowStep
      obtain rfl := Option.some.inj h
      exact ⟨.flow l none, _, hflowStep none, rfl, hreliable, hunreliable, hreceiving, hinjected⟩
    · rw [hsent, List.drop_left] at h hflowStep
      obtain ⟨s'', hsend, h⟩ := Option.bind_eq_some_iff.1 h
      obtain rfl := Option.some.inj h
      obtain ⟨way, client, rfl⟩ := send_eq_some hlib hsend
      refine ⟨.flow l way, _, hflowStep way, ?_⟩
      show Refines setup before _ (RemoteInput.accept _ way e)
      rw [RemoteInput.accept]
      cases e.reliable with
      | true => exact ⟨rfl, by simp [hreliable, Transit.map_accept], hunreliable, hreceiving,
          hinjected⟩
      | false => exact ⟨rfl, hreliable, by simp [hunreliable, Transit.map_accept], hreceiving,
          hinjected⟩
  | flush polled idle =>
    obtain rfl := Option.some.inj h
    exact Or.inl ⟨hflow, hreliable, hunreliable, hreceiving, hinjected⟩
  | arriveReliable connection =>
    obtain ⟨⟨payload, reliable⟩, harrive, h⟩ := Option.bind_eq_some_iff.1 h
    obtain ⟨session, hsession, h⟩ := Option.bind_eq_some_iff.1 h
    obtain rfl := Option.some.inj h
    rw [hreliable] at harrive
    obtain ⟨ev, transit, htransit, rfl, rfl⟩ := arrive_text harrive
    rw [handle, hreceiving.message hlib] at hsession
    obtain rfl := Option.some.inj hsession
    refine Or.inr ⟨.arriveReliable connection,
      { t with reliable := transit, injected := t.injected ++ [ev] }, ?_, hflow, rfl, hunreliable,
      hreceiving.inject _, ?_⟩
    · exact Option.bind_eq_some_iff.2 ⟨_, htransit, rfl⟩
    · simp [hinjected]
  | arriveUnreliable p =>
    obtain ⟨⟨payload, unreliable⟩, harrive, h⟩ := Option.bind_eq_some_iff.1 h
    obtain ⟨session, hsession, h⟩ := Option.bind_eq_some_iff.1 h
    obtain rfl := Option.some.inj h
    rw [hunreliable] at harrive
    obtain ⟨ev, transit, htransit, rfl, rfl⟩ := arrive_text harrive
    rw [handle, hreceiving.message hlib] at hsession
    obtain rfl := Option.some.inj hsession
    refine Or.inr ⟨.arriveUnreliable (p ∘ Prod.map id (text setup.lib)),
      { t with unreliable := transit, injected := t.injected ++ [ev] }, ?_, hflow, hreliable, rfl,
      hreceiving.inject _, ?_⟩
    · exact Option.bind_eq_some_iff.2 ⟨_, htransit, rfl⟩
    · simp [hinjected]
  | loseReliable p =>
    obtain ⟨reliable, hlose, h⟩ := Option.bind_eq_some_iff.1 h
    obtain rfl := Option.some.inj h
    rw [hreliable, Transit.map_lose] at hlose
    obtain ⟨transit, htransit, rfl⟩ := Option.map_eq_some_iff.1 hlose
    refine Or.inr ⟨.loseReliable (p ∘ Prod.map id (text setup.lib)), { t with reliable := transit },
      ?_, hflow, rfl, hunreliable, hreceiving, hinjected⟩
    exact Option.bind_eq_some_iff.2 ⟨_, htransit, rfl⟩
  | loseUnreliable p =>
    obtain ⟨unreliable, hlose, h⟩ := Option.bind_eq_some_iff.1 h
    obtain rfl := Option.some.inj h
    rw [hunreliable, Transit.map_lose] at hlose
    obtain ⟨transit, htransit, rfl⟩ := Option.map_eq_some_iff.1 hlose
    refine Or.inr ⟨.loseUnreliable (p ∘ Prod.map id (text setup.lib)),
      { t with unreliable := transit }, ?_, hflow, hreliable, rfl, hreceiving, hinjected⟩
    exact Option.bind_eq_some_iff.2 ⟨_, htransit, rfl⟩
  | session l =>
    obtain ⟨hl, h⟩ := Option.ite_none_left_eq_some.1 h
    obtain ⟨session, hsession, h⟩ := Option.bind_eq_some_iff.1 h
    obtain rfl := Option.some.inj h
    obtain ⟨hafter, hsame⟩ := hreceiving.step (Bool.eq_false_iff.2 hl) hsession
    exact Or.inl ⟨hflow, hreliable, hunreliable, hafter, hsame.trans hinjected⟩

/-- So a run of the link is a run of the abstract machine. -/
theorem Refines.run (hlib : setup.lib.Lawful) {client : UdpClient} {session : Session}
    (hsession : Receiving setup.sender session) {ls : List Step}
    (h : (machine setup).run (start client session) ls = some s) :
    ∃ ls' t, RemoteInput.machine.run RemoteInput.init ls' = some t ∧
      Refines setup session.injected s t := by
  refine Machine.run_invariant (M := machine setup)
    (I := fun s => ∃ ls' t, RemoteInput.machine.run RemoteInput.init ls' = some t ∧
      Refines setup session.injected s t) ?_ ?_ h
  · rintro s l s' ⟨ls', t, ht, hst⟩ hstep
    rcases hst.step hlib (.run ht) hstep with hst' | ⟨l', t', ht', hst'⟩
    · exact ⟨ls', t, ht, hst'⟩
    · exact ⟨_, t', Machine.run_concat_eq_some.2 ⟨t, ht, ht'⟩, hst'⟩
  · exact ⟨[], RemoteInput.init, rfl, rfl, rfl, rfl, hsession, by simp [RemoteInput.init, start]⟩

/-- The events whose texts are on a channel. -/
theorem events_map (hlib : setup.lib.Lawful) (items : List (ℕ × InputEvent)) :
    events setup.lib ((items.map (Prod.map id (text setup.lib))).map Prod.snd) =
      items.map Prod.snd := by
  have hsnd : (items.map (Prod.map id (text setup.lib))).map Prod.snd =
      (items.map Prod.snd).map (text setup.lib) := by
    rw [List.map_map, List.map_map]
    rfl
  rw [hsnd, events_text hlib]

/-! ## A run -/

/-- The receiver sees the sender at `10.0.0.2`. -/
def exampleSetup : Setup :=
  ⟨JsonText.nlohmann, ⟨.ofString "a", true⟩, ⟨.ofString "10.0.0.2"⟩, ⟨.ofString "10.0.0.1"⟩⟩

/-- The sender's client. -/
def exampleClient : UdpClient := .init (.ofString "10.0.0.1") 8801 true

/-- A key is pressed and the mouse moved, and the motion is injected first. -/
def pressAndMove : List Step :=
  [.flow (.start true) (UdpClient.answersIdle .connected 0),
    .flow (.push ⟨.key, .down, 4, 0, 0⟩) (UdpClient.connects 1000),
    .flow (.push ⟨.mouse, .move, 0, 3, -1⟩) (UdpClient.answersIdle .connected 0),
    .flow .moveLoop (UdpClient.answersIdle .connected 0),
    .flow .moveLoop (UdpClient.answersIdle .connected 0),
    .flow .moveLoop (UdpClient.answersIdle .connected 0),
    .arriveUnreliable fun _ => true,
    .arriveReliable 0]

/-- The receiver after it has accepted the sender's request. -/
def exampleSession : Session :=
  ((Session.machine exampleSetup.lib exampleSetup.host).run Session.init
    (Session.acceptAndType.take 3)).getD Session.init

theorem receiving_exampleSession : Receiving exampleSetup.sender exampleSession := by
  have hall : exampleSession.pinnedPeer = some exampleSetup.sender ∧
      exampleSession.scene = .receiver ∧
      exampleSession.onPackage.callbacks = [.receiverScene true] ∧
      exampleSession.uiTasks = [] := by
    decide +kernel
  obtain ⟨hpinned, hscene, hcallbacks, htasks⟩ := hall
  exact ⟨hpinned, hscene, hcallbacks, by simp [htasks]⟩

/-- Both events of the run are injected. -/
theorem exists_pressAndMove : ∃ s,
    (machine exampleSetup).run (start exampleClient exampleSession) pressAndMove = some s ∧
    s.session.injected = exampleSession.injected ++
      [⟨.mouse, .move, 0, 3, -1⟩, ⟨.key, .down, 4, 0, 0⟩].map (injection exampleSetup.sender) := by
  have hrun : ∃ s ∈ (machine exampleSetup).run (start exampleClient exampleSession) pressAndMove,
      s.session.injected = exampleSession.injected ++
        [⟨.mouse, .move, 0, 3, -1⟩, ⟨.key, .down, 4, 0, 0⟩].map
          (injection exampleSetup.sender) := by
    decide +kernel
  exact hrun

end Link

/-! ## The main results -/

open Link
open SenderFlow (isMotion motion threadHeld)
open scoped List

section

variable {setup : Setup} {client : UdpClient} {session : Session} {ls : List Link.Step} {s : Link}

/-- The link refines input from a distance. From a receiver that shows the receiver scene and has
the sender pinned, every run of the link, with any client and any answers of ENet, is a run of
`RemoteInput` with the same flow: on the channels are the texts of its events, and the events
injected since the start are those it injects, each from the sender and under its pin. -/
theorem link_refines (hlib : setup.lib.Lawful) (hsession : Receiving setup.sender session)
    (h : (machine setup).run (start client session) ls = some s) :
    ∃ ls' t, RemoteInput.machine.run RemoteInput.init ls' = some t ∧
      Refines setup session.injected s t :=
  Refines.run hlib hsession h

/-- Where the keys and buttons are. In every reachable state of the link, those pushed at the sender
are injected at the receiver, on their way, lost on the way or were given up at once, each as often
as it was pushed; those injected are those that have arrived, in this order; and those of one
connection were pushed in the order in which they have arrived. -/
theorem link_keys (hlib : setup.lib.Lawful) (hsession : Receiving setup.sender session)
    (h : (machine setup).run (start client session) ls = some s) :
    ∃ evs : List InputEvent,
      s.session.injected = session.injected ++ evs.map (injection setup.sender) ∧
      evs.filter (fun ev => !isMotion ev) ++
          events setup.lib (s.reliable.inFlight.map Prod.snd) ++
          events setup.lib (s.reliable.lost.map Prod.snd) ++
          events setup.lib s.reliable.discarded ~
        s.flow.pushed.filter (fun ev => !isMotion ev) ∧
      evs.filter (fun ev => !isMotion ev) =
        events setup.lib (s.reliable.arrived.map Prod.snd) ∧
      ∀ connection, (events setup.lib (Transit.on connection s.reliable.arrived)).Sublist
        (s.flow.pushed.filter fun ev => !isMotion ev) := by
  obtain ⟨ls', t, ht, hst⟩ := Refines.run hlib hsession h
  have hI : t.Invariant := .run ht
  refine ⟨t.injected, hst.injected, ?_, ?_, fun connection => ?_⟩
  · rw [hst.flow, hst.reliable, Transit.map_discarded, events_text hlib]
    simp only [Transit.map, events_map hlib]
    exact hI.perm_pushed
  · rw [hst.reliable, hI.reliableInjected]
    exact (events_map hlib _).symm
  · rw [hst.flow, hst.reliable]
    simp only [Transit.map, Transit.map_on, events_text hlib]
    exact hI.sublist_pushed connection

/-- Where the motion is. In every reachable state of the link, the moves injected at the receiver,
those on their way, those lost, those given up at once, and what the sender's thread and aggregator
hold add up to the moves pushed, and the same holds of the scrolls. -/
theorem link_motion (hlib : setup.lib.Lawful) (hsession : Receiving setup.sender session)
    (h : (machine setup).run (start client session) ls = some s) :
    ∃ evs : List InputEvent,
      s.session.injected = session.injected ++ evs.map (injection setup.sender) ∧
      motion .move evs +
          motion .move (events setup.lib (s.unreliable.inFlight.map Prod.snd)) +
          motion .move (events setup.lib (s.unreliable.lost.map Prod.snd)) +
          motion .move (events setup.lib s.unreliable.discarded) +
          threadHeld s.flow.moveThread + s.flow.moveAgg.held = motion .move s.flow.pushed ∧
      motion .scroll evs +
          motion .scroll (events setup.lib (s.unreliable.inFlight.map Prod.snd)) +
          motion .scroll (events setup.lib (s.unreliable.lost.map Prod.snd)) +
          motion .scroll (events setup.lib s.unreliable.discarded) +
          threadHeld s.flow.scrollThread + s.flow.scrollAgg.held =
        motion .scroll s.flow.pushed := by
  obtain ⟨ls', t, ht, hst⟩ := Refines.run hlib hsession h
  refine ⟨t.injected, hst.injected, ?_⟩
  rw [hst.flow, hst.unreliable, Transit.map_discarded, events_text hlib]
  simp only [Transit.map, events_map hlib]
  exact (RemoteInput.Invariant.run ht).motion_pushed

/-- Whatever is on its way can arrive, the next packet of a connection or any unreliable one. The
receiver handles it without an exception, and its session changes in one event that is injected. -/
theorem link_progress (hlib : setup.lib.Lawful) (hsession : Receiving setup.sender session)
    (h : (machine setup).run (start client session) ls = some s) :
    (∀ x ∈ s.reliable.inFlight, ∃ ev s', step setup s (.arriveReliable x.1) = some s' ∧
      s'.session = { s.session with
        injected := s.session.injected ++ [injection setup.sender ev] }) ∧
    ∀ p, (∃ x ∈ s.unreliable.inFlight, p x = true) →
      ∃ ev s', step setup s (.arriveUnreliable p) = some s' ∧
        s'.session = { s.session with
          injected := s.session.injected ++ [injection setup.sender ev] } := by
  obtain ⟨ls', t, ht, hst⟩ := Refines.run hlib hsession h
  have hhandle : ∀ ev, s.handle setup (text setup.lib ev) = some { s.session with
      injected := s.session.injected ++ [injection setup.sender ev] } :=
    fun ev => hst.receiving.message hlib ev
  constructor
  · intro x hx
    obtain ⟨payload, after, harrive⟩ := Transit.arrive_of_mem hx (p := Transit.next x.1)
      (decide_eq_true rfl)
    obtain ⟨ev, -, -, rfl, -⟩ := arrive_text (hst.reliable ▸ harrive)
    refine ⟨ev, { s with reliable := after, session := _ }, ?_, rfl⟩
    rw [step, harrive]
    simp [hhandle]
  · rintro p ⟨x, hx, hp⟩
    obtain ⟨payload, after, harrive⟩ := Transit.arrive_of_mem hx hp
    obtain ⟨ev, -, -, rfl, -⟩ := arrive_text (hst.unreliable ▸ harrive)
    refine ⟨ev, { s with unreliable := after, session := _ }, ?_, rfl⟩
    rw [step, harrive]
    simp [hhandle]

end

open Link in
/-- The run with a key and a move. -/
theorem link_refines_pressAndMove : ∃ s ls' t,
    (machine exampleSetup).run (start exampleClient exampleSession) pressAndMove = some s ∧
    RemoteInput.machine.run RemoteInput.init ls' = some t ∧
    t.injected = [⟨.mouse, .move, 0, 3, -1⟩, ⟨.key, .down, 4, 0, 0⟩] := by
  obtain ⟨s, hs, hall⟩ := exists_pressAndMove
  obtain ⟨ls', t, ht, hst⟩ := link_refines JsonText.lawful receiving_exampleSession hs
  refine ⟨s, ls', t, hs, ht, ?_⟩
  have hinjected := List.append_cancel_left (hst.injected.symm.trans hall)
  exact List.map_injective_iff.2 (injection_injective _) hinjected

open Link in
/-- In this run the key is what has arrived reliably. -/
theorem link_keys_pressAndMove : ∃ s,
    (machine exampleSetup).run (start exampleClient exampleSession) pressAndMove = some s ∧
    events JsonText.nlohmann (s.reliable.arrived.map Prod.snd) = [⟨.key, .down, 4, 0, 0⟩] := by
  obtain ⟨s, hs, hall⟩ := exists_pressAndMove
  obtain ⟨evs, hinjected, -, harrived, -⟩ :=
    link_keys JsonText.lawful receiving_exampleSession hs
  obtain rfl := List.map_injective_iff.2 (injection_injective _)
    (List.append_cancel_left (hinjected.symm.trans hall))
  exact ⟨s, hs, harrived.symm⟩

open Link in
/-- In this run the move is all that was injected, and what else there is adds up to nothing. -/
theorem link_motion_pressAndMove : ∃ s,
    (machine exampleSetup).run (start exampleClient exampleSession) pressAndMove = some s ∧
    (3, -1) + motion .move (events JsonText.nlohmann (s.unreliable.inFlight.map Prod.snd)) +
        motion .move (events JsonText.nlohmann (s.unreliable.lost.map Prod.snd)) +
        motion .move (events JsonText.nlohmann s.unreliable.discarded) +
        threadHeld s.flow.moveThread + s.flow.moveAgg.held = motion .move s.flow.pushed := by
  obtain ⟨s, hs, hall⟩ := exists_pressAndMove
  obtain ⟨evs, hinjected, hmoves, -⟩ :=
    link_motion JsonText.lawful receiving_exampleSession hs
  obtain rfl := List.map_injective_iff.2 (injection_injective _)
    (List.append_cancel_left (hinjected.symm.trans hall))
  exact ⟨s, hs, hmoves⟩

open Link in
/-- Before the last two steps of the run the key is on its way, and can arrive. -/
theorem link_progress_pressAndMove : ∃ s ev s',
    (machine exampleSetup).run (start exampleClient exampleSession) (pressAndMove.take 6) = some s ∧
    step exampleSetup s (.arriveReliable 0) = some s' ∧
    s'.session.injected = s.session.injected ++ [injection exampleSetup.sender ev] := by
  have hrun : ∃ s ∈ (machine exampleSetup).run (start exampleClient exampleSession)
      (pressAndMove.take 6), ∃ x ∈ s.reliable.inFlight, x.1 = 0 := by
    decide +kernel
  obtain ⟨s, hs, x, hx, hconnection⟩ := hrun
  obtain ⟨ev, s', hstep, hsession⟩ :=
    (link_progress JsonText.lawful receiving_exampleSession hs).1 x hx
  rw [hconnection] at hstep
  exact ⟨s, ev, s', hs, hstep, by rw [hsession]⟩

end Keyleport
