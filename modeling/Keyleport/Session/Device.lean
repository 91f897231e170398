import Keyleport.Discovery.Peer
import Keyleport.Lib.Machine
import Keyleport.Services.Packages
import Keyleport.Utils.EventEmitter

/-!
# A device's session

One device as its user and the network see it: the communication service
(`services/communication/communication_service.cpp`), the scenes that subscribe to its packages
(`gui/scenes/home`, `gui/scenes/receiver`), the window that switches between them, the queue of
UI tasks, and the two atoms of the store the scenes read and write.

The steps are a message from the network, a click on a Connect button, the run of the UI task
at the front of the queue, and a change of the list of available devices by the discovery
service. What a step does is a function of the state, and it may throw.
-/

namespace Keyleport

/-- The scene the window shows. -/
inductive Scene where
  | home
  | sender
  | receiver
deriving DecidableEq, Repr

/-- A subscriber of `on_package`. -/
inductive PackageCallback where
  /-- The callback of `HomeScene::didMount`. -/
  | homeScene
  /-- The callback of `ReceiverScene::didMount`, with whether `emitter_ptr` is set. -/
  | receiverScene (emitter : Bool)
deriving DecidableEq, Repr

/-- A task posted with `post_to_ui`: a call of `set_window_scene`. -/
inductive UiTask where
  | setSenderScene
  | setReceiverScene
deriving DecidableEq, Repr

/-- The scene a task switches to. -/
def UiTask.scene : UiTask → Scene
  | setSenderScene => .sender
  | setReceiverScene => .receiver

/-- A call of `Emitter::emit`, with where the event came from and the peer pinned then. -/
structure Injection where
  event : InputEvent
  /-- The address of the message that carried the event. -/
  source : StdString
  /-- `pinned_peer_` at the call. -/
  pinnedPeer : Option Peer
deriving DecidableEq, Repr

/-- What does not change during a run of the program. -/
structure Host where
  /-- `self_peer.device_id` of the discovery service. -/
  deviceId : StdString
  /-- Whether the platform has an emitter: `make_keyboard()` and `createEmitter()`. -/
  hasEmitter : Bool
deriving DecidableEq, Repr

/-- The state of a session. -/
structure Session where
  /-- `pinned_peer_` of the communication service. -/
  pinnedPeer : Option Peer
  /-- `udp_client_`, by the peer it is configured for. -/
  udpClient : Option Peer
  /-- `on_package`. -/
  onPackage : EventEmitter PackageCallback
  /-- `store::connection_state().connected_device`. -/
  connectedDevice : Option ConnectionCandidate
  /-- `store::connection_state().available_devices`. -/
  availableDevices : List ConnectionCandidate
  /-- The window's `scene_`. -/
  scene : Scene
  /-- The UI task queue, front first. -/
  uiTasks : List UiTask
  /-- `HomeScene::communication_subscription_id_`. -/
  homeSubscriptionId : UInt16
  /-- `ReceiverScene::communication_subscription_id_`. -/
  receiverSubscriptionId : UInt16
  /-- The messages handed to `udp_client_->send_reliable`, oldest first. -/
  sent : List Message
  /-- The events handed to the emitter, oldest first. -/
  injected : List Injection
deriving DecidableEq, Repr

namespace Session

/-! ## The communication service -/

/-- `communication_service::pin_connection`. -/
def pinConnection (s : Session) (targetPeer : Peer) : Session :=
  { s with pinnedPeer := some targetPeer, udpClient := some targetPeer }

/-- `communication_service::send_package_reliable`. -/
def sendPackageReliable (lib : Nlohmann) (s : Session) (package : TypedPackage) :
    Except TypeError Session :=
  match s.udpClient, s.pinnedPeer with
  | some _, some peer => do
      let payload ← package.encode lib
      return { s with sent := s.sent ++ [⟨Peer.self, peer, payload⟩] }
  | _, _ => .ok s

/-- `gui::framework::post_to_ui`. -/
def postToUi (s : Session) (task : UiTask) : Session :=
  { s with uiTasks := s.uiTasks ++ [task] }

/-! ## The subscribers -/

/-- The callback of `HomeScene::didMount`: a request from a known device is accepted. -/
def homeOnPackage (lib : Nlohmann) (package : TypedPackage) (s : Session) :
    Except TypeError Session :=
  if BecomeReceiverPackage.is package then do
    -- the decoded device id is only logged
    let _ ← BecomeReceiverPackage.decode lib package.payload
    match s.availableDevices.find? fun d => d.ip = package.metaMessage.sender.ipAddress with
    | none => return s
    | some candidate =>
        let s := { s with connectedDevice := some candidate }
        let s := s.pinConnection ⟨candidate.ip⟩
        -- the subscription stays until the task has run
        return s.postToUi .setReceiverScene
  else .ok s

/-- The callback of `ReceiverScene::didMount`: an input event is handed to the emitter. -/
def receiverOnPackage (lib : Nlohmann) (emitter : Bool) (package : TypedPackage) (s : Session) :
    Except TypeError Session :=
  if emitter && KeyboardInputPackage.is package then do
    let decoded ← KeyboardInputPackage.decode lib package.payload
    let injection : Injection :=
      ⟨decoded.event, package.metaMessage.sender.ipAddress, s.pinnedPeer⟩
    return { s with injected := s.injected ++ [injection] }
  else .ok s

/-- Invoke a subscriber. -/
def invoke (lib : Nlohmann) (package : TypedPackage) :
    PackageCallback → Session → Except TypeError Session
  | .homeScene => homeOnPackage lib package
  | .receiverScene emitter => receiverOnPackage lib emitter package

/-- The pin filter: a peer is pinned and the message is not from it. -/
def ignores (s : Session) (msg : Message) : Bool :=
  match s.pinnedPeer with
  | some p => msg.sender.ipAddress ≠ p.ipAddress
  | none => false

/-- The `on_message` callback of `communication_service::init`. -/
def onMessage (lib : Nlohmann) (s : Session) (msg : Message) : Except TypeError Session :=
  if s.ignores msg then .ok s
  else do
    let package ← TypedPackage.decode lib msg.payload
    -- the subscribers are those of this moment; the message is the package's `meta`
    s.onPackage.emit (invoke lib { package with metaMessage := msg }) s

/-! ## The scenes -/

/-- `HomeScene::didMount`. The store's list is emptied and the services are new. -/
def homeDidMount (s : Session) : Session :=
  let (id, onPackage) := EventEmitter.empty.subscribe (some PackageCallback.homeScene)
  { s with
    availableDevices := []
    pinnedPeer := none
    udpClient := none
    onPackage := onPackage
    homeSubscriptionId := id.toUInt16 }

/-- `HomeScene::willUnmount`. -/
def homeWillUnmount (s : Session) : Session :=
  { s with onPackage := s.onPackage.unsubscribe s.homeSubscriptionId.toUInt64 }

/-- `ReceiverScene::didMount`. -/
def receiverDidMount (host : Host) (s : Session) : Session :=
  let (id, onPackage) := s.onPackage.subscribe (some (.receiverScene host.hasEmitter))
  { s with onPackage := onPackage, receiverSubscriptionId := id.toUInt16 }

/-- `ReceiverScene::willUnmount`. -/
def receiverWillUnmount (s : Session) : Session :=
  { s with onPackage := s.onPackage.unsubscribe s.receiverSubscriptionId.toUInt64 }

/-- `didMount` of a scene. The sender scene's own state is modelled with its flow. -/
def didMount (host : Host) (s : Session) : Scene → Session
  | .home => homeDidMount s
  | .sender => s
  | .receiver => receiverDidMount host s

/-- `willUnmount` of a scene. -/
def willUnmount (s : Session) : Scene → Session
  | .home => homeWillUnmount s
  | .sender => s
  | .receiver => receiverWillUnmount s

/-- `SdlImGuiWindow::setScene`. -/
def setScene (host : Host) (s : Session) (scene : Scene) : Session :=
  if s.scene = scene then s
  else didMount host { willUnmount s s.scene with scene := scene } scene

/-- The Connect branch of `HomeScene::render`, for the button of `d`. -/
def connectClicked (lib : Nlohmann) (host : Host) (s : Session) (d : ConnectionCandidate) :
    Except TypeError Session := do
  let s := { s with connectedDevice := some d }
  let s := s.pinConnection ⟨d.ip⟩
  let payload ← BecomeReceiverPackage.encode lib ⟨host.deviceId⟩
  let s ← s.sendPackageReliable lib ⟨BecomeReceiverPackage.typename, payload, default⟩
  return s.postToUi .setSenderScene

/-! ## The machine -/

/-- After `store::init` and `main_loop::init`: the home scene is mounted, nothing is known. -/
def init : Session :=
  homeDidMount ⟨none, none, .empty, none, [], .home, [], 0, 0, [], []⟩

/-- The steps of a session. -/
inductive Step where
  /-- The server hands over a message. -/
  | message (msg : Message)
  /-- A click on the Connect button of a listed device. -/
  | connectClick (d : ConnectionCandidate)
  /-- One turn of the loop in `process_ui_tasks`. -/
  | runUiTask
  /-- The discovery service stores a new list of devices. -/
  | setAvailableDevices (ds : List ConnectionCandidate)

/-- One step. A click needs the home scene and an enabled button, a task a non-empty queue. A
step that throws ends the run. -/
def step (lib : Nlohmann) (host : Host) (s : Session) : Step → Option Session
  | .message msg => (onMessage lib s msg).toOption
  | .connectClick d =>
      if s.scene = .home ∧ d ∈ s.availableDevices ∧ d.isBusy = false then
        (connectClicked lib host s d).toOption
      else none
  | .runUiTask =>
      match s.uiTasks with
      | [] => none
      | task :: tasks => some (setScene host { s with uiTasks := tasks } task.scene)
  | .setAvailableDevices ds => some { s with availableDevices := ds }

/-- The session as a machine. -/
def machine (lib : Nlohmann) (host : Host) : Machine Session Step := ⟨step lib host⟩

/-! ## What a step does -/

variable {lib : Nlohmann} {host : Host} {s s' : Session}

@[simp]
theorem init_callbacks : init.onPackage.callbacks = [.homeScene] := rfl

/-- A message from anyone but the pinned peer is dropped. -/
theorem onMessage_of_ignores {msg : Message} (h : s.ignores msg = true) :
    onMessage lib s msg = .ok s := by
  rw [onMessage, if_pos h]

/-- A message that is not dropped is decoded and emitted. -/
theorem onMessage_eq_ok {msg : Message} (hmsg : s.ignores msg = false)
    (h : onMessage lib s msg = .ok s') :
    ∃ package, TypedPackage.decode lib msg.payload = .ok package ∧
      s.onPackage.emit (invoke lib { package with metaMessage := msg }) s = .ok s' := by
  rw [onMessage, hmsg] at h
  exact Except.bind_eq_ok_iff.1 h

/-- The home scene's callback leaves the state alone or accepts the sender. -/
theorem homeOnPackage_cases {package : TypedPackage}
    (h : homeOnPackage lib package s = .ok s') :
    s' = s ∨ ∃ candidate ∈ s.availableDevices,
      BecomeReceiverPackage.is package = true ∧
      candidate.ip = package.metaMessage.sender.ipAddress ∧
      s' = ({ s with connectedDevice := some candidate }.pinConnection
        ⟨candidate.ip⟩).postToUi .setReceiverScene := by
  unfold homeOnPackage at h
  split at h
  next his =>
    -- the decoded request only matters in that it decodes
    obtain ⟨request, -, h⟩ := Except.bind_eq_ok_iff.1 h
    cases hfind : s.availableDevices.find? fun d =>
        d.ip = package.metaMessage.sender.ipAddress with
    | none =>
      rw [hfind] at h
      exact Or.inl (Except.ok.inj h).symm
    | some candidate =>
      rw [hfind] at h
      have hip : candidate.ip = package.metaMessage.sender.ipAddress := by
        simpa using List.find?_some hfind
      exact Or.inr ⟨candidate, List.mem_of_find?_eq_some hfind, his, hip,
        (Except.ok.inj h).symm⟩
  next => exact Or.inl (Except.ok.inj h).symm

/-- The home scene's callback accepts a request of a known device. -/
theorem homeOnPackage_of_is {package : TypedPackage} {candidate : ConnectionCandidate}
    (his : BecomeReceiverPackage.is package = true)
    (hfind : (s.availableDevices.find? fun d =>
      d.ip = package.metaMessage.sender.ipAddress) = some candidate) :
    homeOnPackage lib package s = .ok (({ s with connectedDevice := some candidate }.pinConnection
      ⟨candidate.ip⟩).postToUi .setReceiverScene) := by
  obtain ⟨p, hdec⟩ := BecomeReceiverPackage.decode_ok lib package.payload
  rw [homeOnPackage, if_pos his, hdec]
  simp only [bind, Except.bind, hfind]
  rfl

/-- The receiver scene's callback leaves the state alone or injects one event. -/
theorem receiverOnPackage_cases {emitter : Bool} {package : TypedPackage}
    (h : receiverOnPackage lib emitter package s = .ok s') :
    s' = s ∨ ∃ event, s' = { s with
      injected :=
        s.injected ++ [⟨event, package.metaMessage.sender.ipAddress, s.pinnedPeer⟩] } := by
  unfold receiverOnPackage at h
  split at h
  next =>
    obtain ⟨p, -, h⟩ := Except.bind_eq_ok_iff.1 h
    exact Or.inr ⟨p.event, (Except.ok.inj h).symm⟩
  next => exact Or.inl (Except.ok.inj h).symm

/-- What handling a message can do: it accepts the sender, once for each time the home scene is
subscribed, or leaves the pin, the connected device and the task queue alone. The rest of the
state, the injected events apart, never changes. -/
structure MessageEffect (msg : Message) (s s' : Session) : Prop where
  udpClient : s.udpClient = s.pinnedPeer → s'.udpClient = s'.pinnedPeer
  onPackage : s'.onPackage = s.onPackage
  availableDevices : s'.availableDevices = s.availableDevices
  scene : s'.scene = s.scene
  sent : s'.sent = s.sent
  accepts : (s'.pinnedPeer = s.pinnedPeer ∧ s'.connectedDevice = s.connectedDevice ∧
      s'.uiTasks = s.uiTasks) ∨
    (s'.pinnedPeer = some msg.sender ∧
      (∃ c, c.ip = msg.sender.ipAddress ∧ s'.connectedDevice = some c) ∧
      ∃ n, s'.uiTasks = s.uiTasks ++ List.replicate (n + 1) .setReceiverScene)

theorem MessageEffect.refl (msg : Message) (s : Session) : MessageEffect msg s s :=
  ⟨id, rfl, rfl, rfl, rfl, Or.inl ⟨rfl, rfl, rfl⟩⟩

/-- One more callback keeps the effect of those before it. -/
private theorem MessageEffect.invoke {msg : Message} {package : TypedPackage}
    (hmeta : package.metaMessage = msg) {cb : PackageCallback} {s t t' : Session}
    (ht : MessageEffect msg s t) (h : Session.invoke lib package cb t = .ok t') :
    MessageEffect msg s t' := by
  cases cb with
  | homeScene =>
    rcases homeOnPackage_cases h with rfl | ⟨c, -, -, hip, rfl⟩
    · exact ht
    · -- the candidate found has the address of the sender, which is the new pin
      rw [hmeta] at hip
      refine ⟨fun _ => rfl, ht.onPackage, ht.availableDevices, ht.scene, ht.sent, Or.inr ?_⟩
      have hpin : some (⟨c.ip⟩ : Peer) = some msg.sender := by rw [hip]
      refine ⟨hpin, ⟨c, hip, rfl⟩, ?_⟩
      rcases ht.accepts with ⟨-, -, htasks⟩ | ⟨-, -, n, htasks⟩
      · exact ⟨0, congrArg (· ++ [UiTask.setReceiverScene]) htasks⟩
      · refine ⟨n + 1, ?_⟩
        rw [List.replicate_succ', ← List.append_assoc, ← htasks]
        rfl
  | receiverScene emitter =>
    rcases receiverOnPackage_cases h with rfl | ⟨event, rfl⟩
    · exact ht
    · exact ⟨ht.udpClient, ht.onPackage, ht.availableDevices, ht.scene, ht.sent, ht.accepts⟩

theorem messageEffect_of_onMessage {msg : Message} (h : onMessage lib s msg = .ok s') :
    MessageEffect msg s s' := by
  cases hmsg : s.ignores msg with
  | true =>
    rw [onMessage_of_ignores hmsg] at h
    obtain rfl := Except.ok.inj h
    exact .refl msg s
  | false =>
    -- the effect is an invariant of the loop over the subscribers
    obtain ⟨package, -, hemit⟩ := onMessage_eq_ok hmsg h
    exact EventEmitter.emit_invariant (P := MessageEffect msg s)
      (fun _ _ _ _ ht hcb => ht.invoke rfl hcb) (.refl msg s) hemit

/-- A click connects, pins, sends one message to the device and posts the scene switch. -/
theorem connectClicked_eq_ok {d : ConnectionCandidate}
    (h : connectClicked lib host s d = .ok s') :
    ∃ inner payload, BecomeReceiverPackage.encode lib ⟨host.deviceId⟩ = .ok inner ∧
      TypedPackage.encode lib ⟨BecomeReceiverPackage.typename, inner, default⟩ = .ok payload ∧
      s' = { s with
        connectedDevice := some d
        pinnedPeer := some ⟨d.ip⟩
        udpClient := some ⟨d.ip⟩
        sent := s.sent ++ [⟨Peer.self, ⟨d.ip⟩, payload⟩]
        uiTasks := s.uiTasks ++ [.setSenderScene] } := by
  obtain ⟨inner, hinner, h⟩ := Except.bind_eq_ok_iff.1 h
  obtain ⟨t, hsend, h⟩ := Except.bind_eq_ok_iff.1 h
  obtain rfl := Except.ok.inj h
  -- `pin_connection` came first, so there is a client and a pinned peer to send to
  obtain ⟨payload, hpayload, hsend⟩ := Except.bind_eq_ok_iff.1 hsend
  obtain rfl := Except.ok.inj hsend
  exact ⟨inner, payload, hinner, hpayload, rfl⟩

/-- A task switches the scene, and apart from the subscriptions changes nothing else. -/
theorem setScene_task (host : Host) (s : Session) (task : UiTask) :
    ∃ onPackage id, setScene host s task.scene =
      { s with scene := task.scene, onPackage := onPackage, receiverSubscriptionId := id } := by
  unfold setScene
  split
  next hscene =>
    -- the scene is shown already
    refine ⟨s.onPackage, s.receiverSubscriptionId, ?_⟩
    rw [← hscene]
  next =>
    -- no task leads to the home scene, the only one whose mounting resets more
    cases task <;> cases hscene : s.scene <;> exact ⟨_, _, rfl⟩

/-- What a step can do, with its guard. -/
theorem step_cases {l : Step} (h : step lib host s l = some s') :
    (∃ msg, l = .message msg ∧ onMessage lib s msg = .ok s') ∨
    (∃ d, l = .connectClick d ∧ s.scene = .home ∧ d ∈ s.availableDevices ∧ d.isBusy = false ∧
      connectClicked lib host s d = .ok s') ∨
    (∃ task tasks, l = .runUiTask ∧ s.uiTasks = task :: tasks ∧
      s' = setScene host { s with uiTasks := tasks } task.scene) ∨
    (∃ ds, l = .setAvailableDevices ds ∧ s' = { s with availableDevices := ds }) := by
  cases l with
  | message msg => exact Or.inl ⟨msg, rfl, Except.eq_ok_of_toOption h⟩
  | connectClick d =>
    obtain ⟨hguard, h⟩ := Option.ite_none_right_eq_some.1 h
    exact Or.inr (Or.inl ⟨d, rfl, hguard.1, hguard.2.1, hguard.2.2, Except.eq_ok_of_toOption h⟩)
  | runUiTask =>
    simp only [step] at h
    split at h
    next => cases h
    next task tasks htasks =>
      exact Or.inr (Or.inr (Or.inl ⟨task, tasks, rfl, htasks, (Option.some.inj h).symm⟩))
  | setAvailableDevices ds => exact Or.inr (Or.inr (Or.inr ⟨ds, rfl, (Option.some.inj h).symm⟩))

end Session

end Keyleport
