import Keyleport.Session.Device
import Mathlib.Data.Option.Basic
import Mathlib.Logic.Function.Basic

/-!
# Roles after the connect handshake

Any number of devices that list each other. A click on Connect pins the clicked device, sends it
a `become_receiver` package and posts the sender scene; the delivery of the package to a home
scene that is still subscribed pins its sender and posts the receiver scene. Clicks, deliveries
and UI tasks interleave freely, and messages are delivered once each, in any order.

The handshake has no tie-break, so the roles agree only as long as the clicked device does not
click itself.

* `Session.RoleInvariant`: on one device, what the scene it is heading for says about the pin.
* `Handshake.Invariant`: every click is still in flight or has left its target pinned.
* `handshake_agreement`: once nothing is in flight and no task is pending, the target of a
  sender that made no click of its own is the receiver of a device that clicked on it.
* `handshake_crossing`: two devices that click on each other can both end as senders.
-/

namespace Keyleport

namespace Session

variable {lib : Nlohmann} {host : Host} {s s' : Session}

/-! ## One device -/

/-- The scene a session is heading for: that of its last pending task, or the one shown. -/
def finalScene (s : Session) : Scene :=
  match s.uiTasks.getLast? with
  | some task => task.scene
  | none => s.scene

@[simp]
theorem finalScene_of_uiTasks_nil (h : s.uiTasks = []) : s.finalScene = s.scene := by
  rw [finalScene, h]
  rfl

theorem finalScene_of_uiTasks_concat {tasks : List UiTask} {task : UiTask}
    (h : s.uiTasks = tasks ++ [task]) : s.finalScene = task.scene := by
  rw [finalScene, h, List.getLast?_concat]

/-- A payload is read as a connection request. -/
def IsRequest (lib : Nlohmann) (payload : StdString) : Prop :=
  ∃ package, TypedPackage.decode lib payload = .ok package ∧
    BecomeReceiverPackage.is package = true

/-- What the pin of a device says about the role it is heading for, given the addresses it
clicked on and the peers whose requests were delivered to it. -/
structure RoleInvariant (clicked : StdString → Prop) (heard : Peer → Prop) (s : Session) :
    Prop where
  /-- The home scene has been subscribed since the start. -/
  home : s.scene = .home → s.onPackage = init.onPackage
  /-- Without a pin the device is at home and stays there. -/
  unpinned : s.pinnedPeer = none → s.scene = .home ∧ s.uiTasks = []
  /-- A device that stays at home has no pin. -/
  idle : s.finalScene = .home → s.pinnedPeer = none
  /-- A sender is pinned to a device it clicked on. -/
  sender : s.finalScene = .sender → ∃ ip, clicked ip ∧ s.pinnedPeer = some ⟨ip⟩
  /-- A receiver is pinned to a device whose request it received. -/
  receiver : s.finalScene = .receiver → ∃ p, heard p ∧ s.pinnedPeer = some p

theorem RoleInvariant.mono {clicked clicked' : StdString → Prop} {heard heard' : Peer → Prop}
    (hs : s.RoleInvariant clicked heard) (hclicked : ∀ ip, clicked ip → clicked' ip)
    (hheard : ∀ p, heard p → heard' p) : s.RoleInvariant clicked' heard' where
  home := hs.home
  unpinned := hs.unpinned
  idle := hs.idle
  sender h := (hs.sender h).imp fun ip hip => ⟨hclicked ip hip.1, hip.2⟩
  receiver h := (hs.receiver h).imp fun p hp => ⟨hheard p hp.1, hp.2⟩

/-- A session that has agreed on a role with a peer satisfies the invariant. -/
private theorem RoleInvariant.of_task {clicked : StdString → Prop} {heard : Peer → Prop}
    {tasks : List UiTask} {task : UiTask} {p : Peer}
    (hhome : s.scene = .home → s.onPackage = init.onPackage)
    (htasks : s.uiTasks = tasks ++ [task]) (hpin : s.pinnedPeer = some p)
    (hrole : match task with
      | .setSenderScene => clicked p.ipAddress
      | .setReceiverScene => heard p) : s.RoleInvariant clicked heard := by
  have hfinal : s.finalScene = task.scene := finalScene_of_uiTasks_concat htasks
  refine ⟨hhome, fun hnone => ?_, fun hidle => ?_, fun hsender => ?_, fun hreceiver => ?_⟩
  · rw [hpin] at hnone
    cases hnone
  · rw [hfinal] at hidle
    cases task <;> cases hidle
  · rw [hfinal] at hsender
    cases task with
    | setSenderScene => exact ⟨p.ipAddress, hrole, hpin⟩
    | setReceiverScene => cases hsender
  · rw [hfinal] at hreceiver
    cases task with
    | setSenderScene => cases hreceiver
    | setReceiverScene => exact ⟨p, hrole, hpin⟩

/-- Every step of a device keeps the invariant. -/
theorem RoleInvariant.step {clicked : StdString → Prop} {heard : Peer → Prop} {l : Step}
    (hs : s.RoleInvariant clicked heard) (h : step lib host s l = some s')
    (hclick : ∀ d, l = .connectClick d → clicked d.ip)
    (hmessage : ∀ msg, l = .message msg → heard msg.sender) :
    s'.RoleInvariant clicked heard := by
  rcases step_cases h with ⟨msg, rfl, hmsg⟩ | ⟨d, rfl, -, -, -, hconnect⟩ |
    ⟨task, tasks, rfl, htasks, rfl⟩ | ⟨ds, rfl, rfl⟩
  · have heff := messageEffect_of_onMessage hmsg
    have hhome : s'.scene = .home → s'.onPackage = init.onPackage := by
      rw [heff.scene, heff.onPackage]
      exact hs.home
    rcases heff.accepts with ⟨hpin, -, huiTasks⟩ | ⟨hpin, -, n, huiTasks⟩
    · -- nobody was accepted, so the device is heading where it was
      have hfinal : s'.finalScene = s.finalScene := by
        rw [finalScene, finalScene, huiTasks, heff.scene]
      refine ⟨hhome, ?_, ?_, ?_, ?_⟩
      · rw [hpin, heff.scene, huiTasks]
        exact hs.unpinned
      · rw [hfinal, hpin]
        exact hs.idle
      · rw [hfinal, hpin]
        exact hs.sender
      · rw [hfinal, hpin]
        exact hs.receiver
    · -- the last task posted leads to the receiver scene, with the sender pinned
      rw [List.replicate_succ', ← List.append_assoc] at huiTasks
      exact .of_task hhome huiTasks hpin (hmessage msg rfl)
  · obtain ⟨_, _, -, -, rfl⟩ := connectClicked_eq_ok hconnect
    exact .of_task (p := ⟨d.ip⟩) hs.home rfl rfl (hclick d rfl)
  · obtain ⟨onPackage, id, hscene⟩ := setScene_task host { s with uiTasks := tasks } task
    rw [hscene]
    -- running the front task does not change where the queue leads
    have hfinal : finalScene { s with
        uiTasks := tasks, scene := task.scene, onPackage := onPackage
        receiverSubscriptionId := id } = s.finalScene := by
      unfold finalScene
      rw [htasks]
      cases tasks <;> rfl
    refine ⟨fun hhome => ?_, fun hnone => ?_, ?_, ?_, ?_⟩
    · cases task <;> cases hhome
    · have hempty : s.uiTasks = [] := (hs.unpinned hnone).2
      rw [htasks] at hempty
      cases hempty
    · rw [hfinal]
      exact hs.idle
    · rw [hfinal]
      exact hs.sender
    · rw [hfinal]
      exact hs.receiver
  · exact ⟨hs.home, hs.unpinned, hs.idle, hs.sender, hs.receiver⟩

/-- A pin is never taken back. -/
theorem pinnedPeer_ne_none_of_step {l : Step} (hs : s.pinnedPeer ≠ none)
    (h : step lib host s l = some s') : s'.pinnedPeer ≠ none := by
  rcases step_cases h with ⟨msg, rfl, hmsg⟩ | ⟨d, rfl, -, -, -, hconnect⟩ |
    ⟨task, tasks, rfl, htasks, rfl⟩ | ⟨ds, rfl, rfl⟩
  · rcases (messageEffect_of_onMessage hmsg).accepts with ⟨hpin, -⟩ | ⟨hpin, -⟩
    · rw [hpin]
      exact hs
    · rw [hpin]
      exact Option.some_ne_none _
  · obtain ⟨_, _, -, -, rfl⟩ := connectClicked_eq_ok hconnect
    exact Option.some_ne_none _
  · obtain ⟨onPackage, id, hscene⟩ := setScene_task host { s with uiTasks := tasks } task
    rw [hscene]
    exact hs
  · exact hs

/-- Only a click sends something, a request to the clicked device. -/
theorem sent_of_step (hlib : lib.Lawful) {l : Step} (h : step lib host s l = some s') :
    (s'.sent = s.sent ∧ ∀ d, l ≠ .connectClick d) ∨
    ∃ d payload, l = .connectClick d ∧ IsRequest lib payload ∧
      s'.sent = s.sent ++ [⟨Peer.self, ⟨d.ip⟩, payload⟩] := by
  rcases step_cases h with ⟨msg, rfl, hmsg⟩ | ⟨d, rfl, -, -, -, hconnect⟩ |
    ⟨task, tasks, rfl, htasks, rfl⟩ | ⟨ds, rfl, rfl⟩
  · exact Or.inl ⟨(messageEffect_of_onMessage hmsg).sent, by simp⟩
  · obtain ⟨inner, payload, -, hpayload, rfl⟩ := connectClicked_eq_ok hconnect
    exact Or.inr ⟨d, payload, rfl,
      ⟨_, TypedPackage.decode_encode hlib hpayload, decide_eq_true rfl⟩, rfl⟩
  · obtain ⟨onPackage, id, hscene⟩ := setScene_task host { s with uiTasks := tasks } task
    rw [hscene]
    exact Or.inl ⟨rfl, by simp⟩
  · exact Or.inl ⟨rfl, by simp⟩

/-- A device without a pin accepts a request from a device it lists. -/
theorem pinnedPeer_of_request {clicked : StdString → Prop} {heard : Peer → Prop} {msg : Message}
    (hs : s.RoleInvariant clicked heard) (hreq : IsRequest lib msg.payload)
    (hlisted : ∃ c ∈ s.availableDevices, c.ip = msg.sender.ipAddress)
    (h : step lib host s (.message msg) = some s') : s'.pinnedPeer ≠ none := by
  by_cases hpin : s.pinnedPeer = none
  · obtain ⟨package, hdec, his⟩ := hreq
    obtain ⟨candidate, hfind⟩ : ∃ candidate, (s.availableDevices.find? fun d =>
        d.ip = msg.sender.ipAddress) = some candidate := by
      rw [← Option.isSome_iff_exists, List.find?_isSome]
      simpa using hlisted
    have hign : s.ignores msg = false := by simp [ignores, hpin]
    -- without a pin the home scene is shown, and its callback is the only subscriber
    have haccept : onMessage lib s msg = .ok
        (({ s with connectedDevice := some candidate }.pinConnection
          ⟨candidate.ip⟩).postToUi .setReceiverScene) := by
      have hhome : homeOnPackage lib { package with metaMessage := msg } s = _ :=
        homeOnPackage_of_is his hfind
      rw [onMessage, hign, hdec]
      simp only [Bool.false_eq_true, if_false, bind, Except.bind, EventEmitter.emit,
        hs.home (hs.unpinned hpin).1, init_callbacks, List.foldlM_cons, List.foldlM_nil, invoke,
        hhome]
      rfl
    rw [Session.step, haccept] at h
    obtain rfl := Option.some.inj h
    exact Option.some_ne_none _
  · exact pinnedPeer_ne_none_of_step hpin h

end Session

/-! ## The network -/

/-- The sessions of all devices and the messages in flight, each with its sender. -/
structure Handshake (D : Type) where
  session : D → Session
  inFlight : List (D × Message)

namespace Handshake

variable {D : Type}

/-- What is fixed during a run: devices with distinct addresses that list each other. -/
structure Setup (D : Type) where
  lib : Nlohmann
  lawful : lib.Lawful
  host : D → Host
  ip : D → StdString
  ip_injective : Function.Injective ip
  /-- The devices in the store of each device. -/
  available : D → List ConnectionCandidate
  listed : ∀ d e, d ≠ e → ∃ c ∈ available d, c.ip = ip e

/-- The steps of the network. -/
inductive Step (D : Type) where
  /-- A click of `d` on the Connect button of an entry. -/
  | click (d : D) (entry : ConnectionCandidate)
  /-- The delivery to `d` of the message at position `k`. -/
  | deliver (d : D) (k : ℕ)
  /-- One UI task of `d`. -/
  | runUiTask (d : D)

/-- Every device at its home scene, with the others listed. -/
def start (setup : Setup D) : Handshake D where
  session d := { Session.init with availableDevices := setup.available d }
  inFlight := []

/-- No message is in flight and no task is pending. -/
def Quiescent (w : Handshake D) : Prop := w.inFlight = [] ∧ ∀ d, (w.session d).uiTasks = []

/-- `a` clicked on `b` in the run. -/
def Clicked (setup : Setup D) (ls : List (Step D)) (a b : D) : Prop :=
  ∃ entry, .click a entry ∈ ls ∧ entry.ip = setup.ip b

variable [DecidableEq D]

/-- One step of `d`'s session; what it sends is put in flight. -/
def act (setup : Setup D) (w : Handshake D) (d : D) (l : Session.Step) : Option (Handshake D) :=
  (Session.step setup.lib (setup.host d) (w.session d) l).map fun s =>
    ⟨Function.update w.session d s,
      w.inFlight ++ (s.sent.drop (w.session d).sent.length).map (d, ·)⟩

/-- One step of the network. -/
def step (setup : Setup D) (w : Handshake D) : Step D → Option (Handshake D)
  | .click d entry => w.act setup d (.connectClick entry)
  | .deliver d k =>
      match w.inFlight[k]? with
      | some (src, msg) =>
          if msg.recipient.ipAddress = setup.ip d then
            act setup { w with inFlight := w.inFlight.eraseIdx k } d
              (.message ⟨⟨setup.ip src⟩, Peer.self, msg.payload⟩)
          else none
      | none => none
  | .runUiTask d => w.act setup d .runUiTask

/-- The network as a machine. -/
def machine (setup : Setup D) : Machine (Handshake D) (Step D) := ⟨step setup⟩

/-! ## Agreement -/

variable {setup : Setup D} {ls : List (Step D)} {w w' : Handshake D}

/-- The addresses `d` clicked on. -/
def clickedBy (ls : List (Step D)) (d : D) (ip : StdString) : Prop :=
  ∃ entry, .click d entry ∈ ls ∧ entry.ip = ip

/-- The devices that clicked on `d`. -/
def heardBy (setup : Setup D) (ls : List (Step D)) (d : D) (p : Peer) : Prop :=
  ∃ a, p = ⟨setup.ip a⟩ ∧ Clicked setup ls a d

/-- The invariant of a run with the steps `ls`. -/
structure Invariant (setup : Setup D) (ls : List (Step D)) (w : Handshake D) : Prop where
  available : ∀ d, (w.session d).availableDevices = setup.available d
  role : ∀ d, (w.session d).RoleInvariant (clickedBy ls d) (heardBy setup ls d)
  /-- A message in flight is the request of a click. -/
  inFlight : ∀ a m, (a, m) ∈ w.inFlight →
    clickedBy ls a m.recipient.ipAddress ∧ Session.IsRequest setup.lib m.payload
  /-- The request of a click is in flight, or its target has a pin. -/
  answered : ∀ a b, a ≠ b → Clicked setup ls a b →
    (∃ m, (a, m) ∈ w.inFlight ∧ m.recipient.ipAddress = setup.ip b) ∨
      (w.session b).pinnedPeer ≠ none

omit [DecidableEq D] in
theorem Invariant.start (setup : Setup D) : Invariant setup [] (Handshake.start setup) where
  available _ := rfl
  role _ := ⟨fun _ => rfl, fun _ => ⟨rfl, rfl⟩, fun _ => rfl, nofun, nofun⟩
  inFlight := nofun
  answered := nofun

/-- One step of a session keeps the list of devices of every device but of a step that sets
it, which the network does not take. -/
private theorem availableDevices_of_step {lib : Nlohmann} {host : Host} {s s' : Session}
    {l : Session.Step} (hl : ∀ ds, l ≠ .setAvailableDevices ds)
    (h : Session.step lib host s l = some s') : s'.availableDevices = s.availableDevices := by
  rcases Session.step_cases h with ⟨msg, rfl, hmsg⟩ | ⟨d, rfl, -, -, -, hconnect⟩ |
    ⟨task, tasks, rfl, htasks, rfl⟩ | ⟨ds, rfl, -⟩
  · exact (Session.messageEffect_of_onMessage hmsg).availableDevices
  · obtain ⟨_, _, -, -, rfl⟩ := Session.connectClicked_eq_ok hconnect
    rfl
  · obtain ⟨onPackage, id, hscene⟩ :=
      Session.setScene_task host { s with uiTasks := tasks } task
    rw [hscene]
  · exact absurd rfl (hl ds)

/-- One step of a session puts a request in flight if it is a click, and nothing else. -/
private theorem act_eq_some {d : D} {sl : Session.Step} (h : w.act setup d sl = some w') :
    ∃ s, Session.step setup.lib (setup.host d) (w.session d) sl = some s ∧
      w'.session = Function.update w.session d s ∧
      ((w'.inFlight = w.inFlight ∧ ∀ entry, sl ≠ .connectClick entry) ∨
        ∃ entry payload, sl = .connectClick entry ∧ Session.IsRequest setup.lib payload ∧
          w'.inFlight = w.inFlight ++ [(d, ⟨Peer.self, ⟨entry.ip⟩, payload⟩)]) := by
  obtain ⟨s, hs, rfl⟩ := Option.map_eq_some_iff.1 h
  refine ⟨s, hs, rfl, ?_⟩
  rcases Session.sent_of_step setup.lawful hs with ⟨hsent, hl⟩ | ⟨entry, payload, rfl, hreq, hsent⟩
  · refine Or.inl ⟨?_, hl⟩
    simp only [hsent, List.drop_length, List.map_nil, List.append_nil]
  · refine Or.inr ⟨entry, payload, rfl, hreq, ?_⟩
    simp only [hsent, List.drop_left, List.map_cons, List.map_nil]

/-- What a step of the network does: one device takes one step of its session; a click puts a
request in flight, and a delivery takes its message out. -/
theorem step_cases {l : Step D} (h : step setup w l = some w') :
    ∃ d sl s, Session.step setup.lib (setup.host d) (w.session d) sl = some s ∧
      w'.session = Function.update w.session d s ∧
      ((∃ entry payload, l = .click d entry ∧ sl = .connectClick entry ∧
          Session.IsRequest setup.lib payload ∧
          w'.inFlight = w.inFlight ++ [(d, ⟨Peer.self, ⟨entry.ip⟩, payload⟩)]) ∨
        (∃ k a m, l = .deliver d k ∧ w.inFlight[k]? = some (a, m) ∧
          m.recipient.ipAddress = setup.ip d ∧
          sl = .message ⟨⟨setup.ip a⟩, Peer.self, m.payload⟩ ∧
          w'.inFlight = w.inFlight.eraseIdx k) ∨
        (l = .runUiTask d ∧ sl = .runUiTask ∧ w'.inFlight = w.inFlight)) := by
  cases l with
  | click d entry =>
    obtain ⟨s, hs, hsession, ⟨-, hne⟩ | ⟨e, payload, he, hreq, hflight⟩⟩ := act_eq_some h
    · exact absurd rfl (hne entry)
    · obtain rfl := Session.Step.connectClick.inj he
      exact ⟨d, _, s, hs, hsession, Or.inl ⟨entry, payload, rfl, rfl, hreq, hflight⟩⟩
  | deliver d k =>
    simp only [step] at h
    split at h
    next a m hk =>
      split at h
      next hip =>
        -- only a click puts a request in flight
        obtain ⟨s, hs, hsession, ⟨hflight, -⟩ | ⟨e, payload, he, -⟩⟩ := act_eq_some h
        · exact ⟨d, _, s, hs, hsession, Or.inr (Or.inl ⟨k, a, m, rfl, hk, hip, rfl, hflight⟩)⟩
        · cases he
      next => cases h
    next => cases h
  | runUiTask d =>
    obtain ⟨s, hs, hsession, ⟨hflight, -⟩ | ⟨e, payload, he, -⟩⟩ := act_eq_some h
    · exact ⟨d, _, s, hs, hsession, Or.inr (Or.inr ⟨rfl, rfl, hflight⟩)⟩
    · cases he

omit [DecidableEq D] in
private theorem mem_concat {l l' : Step D} (h : l' ∈ ls) : l' ∈ ls ++ [l] :=
  List.mem_append_left _ h

omit [DecidableEq D] in
private theorem clicked_concat {l : Step D} {a b : D} (h : Clicked setup ls a b) :
    Clicked setup (ls ++ [l]) a b :=
  h.imp fun _ he => ⟨mem_concat he.1, he.2⟩

omit [DecidableEq D] in
private theorem role_concat {l : Step D} {d : D} {s : Session}
    (h : s.RoleInvariant (clickedBy ls d) (heardBy setup ls d)) :
    s.RoleInvariant (clickedBy (ls ++ [l]) d) (heardBy setup (ls ++ [l]) d) :=
  h.mono (fun _ hip => hip.imp fun _ he => ⟨mem_concat he.1, he.2⟩)
    fun _ hp => hp.imp fun _ ha => ⟨ha.1, clicked_concat ha.2⟩

/-- What the updated session satisfies and the others already did holds of every device. -/
private theorem forall_session {P : D → Session → Prop} {d : D} {s : Session}
    (hsession : w'.session = Function.update w.session d s) (hd : P d s)
    (hne : ∀ e, e ≠ d → P e (w.session e)) (e : D) : P e (w'.session e) := by
  rw [hsession]
  by_cases he : e = d
  · subst he
    rw [Function.update_self]
    exact hd
  · rw [Function.update_of_ne he]
    exact hne e he

/-- A delivery answers the request delivered with a pin, and leaves the others in flight. -/
private theorem Invariant.answered_deliver (hI : Invariant setup ls w) {d a : D} {k : ℕ}
    {m : Message} {s : Session} (hk : w.inFlight[k]? = some (a, m))
    (hip : m.recipient.ipAddress = setup.ip d)
    (hs : Session.step setup.lib (setup.host d) (w.session d)
      (.message ⟨⟨setup.ip a⟩, Peer.self, m.payload⟩) = some s)
    (hsession : w'.session = Function.update w.session d s)
    (hflight : w'.inFlight = w.inFlight.eraseIdx k)
    (hpinned : ∀ e, (w.session e).pinnedPeer ≠ none → (w'.session e).pinnedPeer ≠ none) {a' b : D}
    (hab : a' ≠ b) (hclicked : Clicked setup ls a' b) :
    (∃ m, (a', m) ∈ w'.inFlight ∧ m.recipient.ipAddress = setup.ip b) ∨
      (w'.session b).pinnedPeer ≠ none := by
  rcases hI.answered a' b hab hclicked with ⟨m', hm', hr⟩ | hpin
  · obtain ⟨i, hi⟩ := List.mem_iff_getElem?.1 hm'
    by_cases hik : i = k
    · -- the message delivered in this step
      subst hik
      obtain ⟨rfl, rfl⟩ := Prod.mk.inj (Option.some.inj (hk.symm.trans hi))
      obtain rfl : b = d := setup.ip_injective (hr.symm.trans hip)
      apply Or.inr
      rw [hsession, Function.update_self]
      -- the device lists its sender, so a device without a pin accepts it
      have hreq : Session.IsRequest setup.lib
          (Message.payload ⟨⟨setup.ip a⟩, Peer.self, m.payload⟩) :=
        (hI.inFlight _ _ (List.mem_of_getElem? hk)).2
      apply Session.pinnedPeer_of_request (hI.role b) hreq _ hs
      rw [hI.available b]
      exact setup.listed b a (Ne.symm hab)
    · refine Or.inl ⟨m', ?_, hr⟩
      rw [hflight]
      exact List.mem_eraseIdx_iff_getElem?.2 ⟨i, hik, hi⟩
  · exact Or.inr (hpinned b hpin)

/-- Every step keeps the invariant. -/
theorem Invariant.step {l : Step D} (hI : Invariant setup ls w) (h : step setup w l = some w') :
    Invariant setup (ls ++ [l]) w' := by
  obtain ⟨d, sl, s, hs, hsession, hcases⟩ := step_cases h
  -- what holds whichever of the three kinds of step was taken
  have hpinned : ∀ e, (w.session e).pinnedPeer ≠ none → (w'.session e).pinnedPeer ≠ none :=
    forall_session (P := fun e t => (w.session e).pinnedPeer ≠ none → t.pinnedPeer ≠ none)
      hsession (fun hpin => Session.pinnedPeer_ne_none_of_step hpin hs) fun _ _ hpin => hpin
  have hset : ∀ ds, sl ≠ .setAvailableDevices ds := by
    rcases hcases with ⟨_, _, -, rfl, -⟩ | ⟨_, _, _, -, -, -, rfl, -⟩ | ⟨-, rfl, -⟩ <;> simp
  have havailable : ∀ e, (w'.session e).availableDevices = setup.available e :=
    forall_session (P := fun e t => t.availableDevices = setup.available e) hsession
      ((availableDevices_of_step hset hs).trans (hI.available d)) fun e _ => hI.available e
  have hrole (hclick : ∀ entry, sl = .connectClick entry → clickedBy (ls ++ [l]) d entry.ip)
      (hmessage : ∀ msg, sl = .message msg → heardBy setup (ls ++ [l]) d msg.sender) :
      ∀ e, (w'.session e).RoleInvariant (clickedBy (ls ++ [l]) e) (heardBy setup (ls ++ [l]) e) :=
    forall_session (P := fun e t =>
        t.RoleInvariant (clickedBy (ls ++ [l]) e) (heardBy setup (ls ++ [l]) e)) hsession
      ((role_concat (hI.role d)).step hs hclick hmessage) fun e _ => role_concat (hI.role e)
  have hold {a : D} {m : Message} (hm : (a, m) ∈ w.inFlight) :
      clickedBy (ls ++ [l]) a m.recipient.ipAddress ∧ Session.IsRequest setup.lib m.payload :=
    (hI.inFlight a m hm).imp_left fun hc => hc.imp fun _ he => ⟨mem_concat he.1, he.2⟩
  rcases hcases with ⟨entry, payload, rfl, rfl, hreq, hflight⟩ |
    ⟨k, a, m, rfl, hk, hip, rfl, hflight⟩ | ⟨rfl, rfl, hflight⟩
  · -- a click: its request is in flight
    have hnew : clickedBy (ls ++ [.click d entry]) d entry.ip :=
      ⟨entry, List.mem_append_right _ (List.mem_singleton_self _), rfl⟩
    refine ⟨havailable, hrole (fun e he => ?_) (fun msg hm => ?_), fun a m hm => ?_,
      fun a b hab hclicked => ?_⟩
    · obtain rfl := Session.Step.connectClick.inj he
      exact hnew
    · cases hm
    · rw [hflight] at hm
      rcases List.mem_append.1 hm with hm | hm
      · exact hold hm
      · obtain ⟨rfl, rfl⟩ := Prod.mk.inj (List.mem_singleton.1 hm)
        exact ⟨hnew, hreq⟩
    · rw [hflight]
      obtain ⟨e, he, hip⟩ := hclicked
      rcases List.mem_append.1 he with he | he
      · rcases hI.answered a b hab ⟨e, he, hip⟩ with ⟨m, hm, hr⟩ | hpin
        · exact Or.inl ⟨m, List.mem_append_left _ hm, hr⟩
        · exact Or.inr (hpinned b hpin)
      · obtain ⟨rfl, rfl⟩ := Step.click.inj (List.mem_singleton.1 he)
        exact Or.inl ⟨_, List.mem_append_right _ (List.mem_singleton_self _), hip⟩
  · -- a delivery: the request delivered is answered with a pin, the others are still in flight
    have hmem : (a, m) ∈ w.inFlight := List.mem_of_getElem? hk
    refine ⟨havailable, hrole (fun e he => ?_) (fun msg hm => ?_), fun a' m' hm' => ?_,
      fun a' b hab hclicked => ?_⟩
    · cases he
    · obtain rfl := Session.Step.message.inj hm
      obtain ⟨e, he, heip⟩ := (hold hmem).1
      exact ⟨a, rfl, e, he, heip.trans hip⟩
    · rw [hflight] at hm'
      exact hold (List.mem_of_mem_eraseIdx hm')
    · obtain ⟨e, he, heip⟩ := hclicked
      have he' : Step.click a' e ∈ ls := by simpa using he
      exact hI.answered_deliver hk hip hs hsession hflight hpinned hab ⟨e, he', heip⟩
  · -- a task: neither the pins nor the flight change
    refine ⟨havailable, hrole (fun e he => ?_) (fun msg hm => ?_), fun a m hm => ?_,
      fun a b hab hclicked => ?_⟩
    · cases he
    · cases hm
    · rw [hflight] at hm
      exact hold hm
    · obtain ⟨e, he, heip⟩ := hclicked
      have he' : Step.click a e ∈ ls := by simpa using he
      rw [hflight]
      exact (hI.answered a b hab ⟨e, he', heip⟩).imp_right (hpinned b)

theorem Invariant.run (h : (machine setup).run (Handshake.start setup) ls = some w) :
    Invariant setup ls w :=
  Machine.run_induction (motive := Invariant setup) (Invariant.start setup)
    (fun _ _ _ _ _ hI hstep => hI.step hstep) h

omit [DecidableEq D] in
/-- In a quiescent state the scene shown is the one the device was heading for. -/
theorem Quiescent.finalScene {d : D} (hq : w.Quiescent) :
    (w.session d).finalScene = (w.session d).scene :=
  Session.finalScene_of_uiTasks_nil (hq.2 d)

omit [DecidableEq D] in
/-- A sender clicked on the device it is pinned to. -/
theorem Invariant.clicked_of_sender {a b : D} (hI : Invariant setup ls w) (hq : w.Quiescent)
    (hscene : (w.session a).scene = .sender)
    (hpin : (w.session a).pinnedPeer = some ⟨setup.ip b⟩) : Clicked setup ls a b := by
  obtain ⟨ip, ⟨entry, hentry, hip⟩, hpin'⟩ := (hI.role a).sender (hq.finalScene.trans hscene)
  have hb : ip = setup.ip b := congrArg Peer.ipAddress (Option.some.inj (hpin'.symm.trans hpin))
  exact ⟨entry, hentry, hip.trans hb⟩

omit [DecidableEq D] in
/-- A receiver was clicked on by the device it is pinned to. -/
theorem Invariant.clicked_of_receiver {a b : D} (hI : Invariant setup ls w) (hq : w.Quiescent)
    (hscene : (w.session b).scene = .receiver)
    (hpin : (w.session b).pinnedPeer = some ⟨setup.ip a⟩) : Clicked setup ls a b := by
  obtain ⟨p, ⟨e, rfl, hclicked⟩, hpin'⟩ := (hI.role b).receiver (hq.finalScene.trans hscene)
  have he : setup.ip e = setup.ip a :=
    congrArg Peer.ipAddress (Option.some.inj (hpin'.symm.trans hpin))
  exact setup.ip_injective he ▸ hclicked

omit [DecidableEq D] in
/-- A device that was clicked on and clicked on none is the receiver of a device that clicked
on it. -/
theorem Invariant.receiver_of_clicked {a b : D} (hI : Invariant setup ls w) (hq : w.Quiescent)
    (hclicked : Clicked setup ls a b) (hb : ∀ entry, Step.click b entry ∉ ls) :
    (w.session b).scene = .receiver ∧
      ∃ e, Clicked setup ls e b ∧ (w.session b).pinnedPeer = some ⟨setup.ip e⟩ := by
  have hab : a ≠ b := by
    rintro rfl
    obtain ⟨entry, hentry, -⟩ := hclicked
    exact hb entry hentry
  -- nothing is in flight, so the click has been answered
  have hpin : (w.session b).pinnedPeer ≠ none := by
    rcases hI.answered a b hab hclicked with ⟨m, hm, -⟩ | hpin
    · rw [hq.1] at hm
      cases hm
    · exact hpin
  -- a device with a pin is not idle, and only its own click makes it a sender
  have hscene : (w.session b).finalScene = .receiver := by
    cases hfinal : (w.session b).finalScene with
    | home => exact absurd ((hI.role b).idle hfinal) hpin
    | sender =>
      obtain ⟨ip, ⟨entry, hentry, -⟩, -⟩ := (hI.role b).sender hfinal
      exact absurd hentry (hb entry)
    | receiver => rfl
  obtain ⟨p, ⟨e, rfl, he⟩, hpin'⟩ := (hI.role b).receiver hscene
  exact ⟨hq.finalScene.symm.trans hscene, e, he, hpin'⟩

end Handshake

open Handshake in
/-- Role agreement. In every quiescent reachable state, a device `b` that is the target of a
sender `a` and clicked on nothing shows the receiver scene, pinned to a device that clicked on
it, which is `a` if nobody else did. Two devices pinned to each other are both senders, or both
receivers, only if each clicked on the other. -/
theorem handshake_agreement {D : Type} [DecidableEq D] {setup : Setup D} {ls : List (Step D)}
    {w : Handshake D} (h : (machine setup).run (start setup) ls = some w) (hq : w.Quiescent) :
    (∀ a b, (w.session a).scene = .sender → (w.session a).pinnedPeer = some ⟨setup.ip b⟩ →
      (∀ entry, Step.click b entry ∉ ls) →
      (w.session b).scene = .receiver ∧
      (∃ e, Clicked setup ls e b ∧ (w.session b).pinnedPeer = some ⟨setup.ip e⟩) ∧
      ((∀ e, Clicked setup ls e b → e = a) →
        (w.session b).pinnedPeer = some ⟨setup.ip a⟩)) ∧
    ∀ a b, (w.session a).pinnedPeer = some ⟨setup.ip b⟩ →
      (w.session b).pinnedPeer = some ⟨setup.ip a⟩ →
      (w.session a).scene = .sender ∧ (w.session b).scene = .sender ∨
        (w.session a).scene = .receiver ∧ (w.session b).scene = .receiver →
      Clicked setup ls a b ∧ Clicked setup ls b a := by
  have hI : Invariant setup ls w := Invariant.run h
  refine ⟨fun a b hscene hpin hb => ?_, fun a b ha hb hboth => ?_⟩
  · -- the click of `a` was delivered, and `b` has answered to it or to an earlier one
    obtain ⟨hreceiver, e, he, hpin'⟩ :=
      hI.receiver_of_clicked hq (hI.clicked_of_sender hq hscene hpin) hb
    refine ⟨hreceiver, ⟨e, he, hpin'⟩, fun honly => ?_⟩
    rw [hpin', honly e he]
  · rcases hboth with ⟨hsa, hsb⟩ | ⟨hra, hrb⟩
    · exact ⟨hI.clicked_of_sender hq hsa ha, hI.clicked_of_sender hq hsb hb⟩
    · exact ⟨hI.clicked_of_receiver hq hrb hb, hI.clicked_of_receiver hq hra ha⟩

namespace Handshake

/-- Two devices that list each other. -/
def twoDevices : Setup Bool where
  lib := JsonText.nlohmann
  lawful := JsonText.lawful
  host d := ⟨.ofString (if d then "a" else "b"), true⟩
  ip d := .ofString (if d then "10.0.0.1" else "10.0.0.2")
  ip_injective := by
    have h : ∀ d e : Bool, StdString.ofString (if d then "10.0.0.1" else "10.0.0.2") =
        .ofString (if e then "10.0.0.1" else "10.0.0.2") → d = e := by
      decide
    exact fun d e => h d e
  available d := [⟨false, [], .ofString (if d then "10.0.0.2" else "10.0.0.1"), []⟩]
  listed := by decide

end Handshake

open Handshake in
/-- `true` clicks on `false`, which accepts: the roles agree. -/
theorem handshake_agreement_accepted : ∃ w,
    (machine twoDevices).run (start twoDevices)
      [.click true ⟨false, [], .ofString "10.0.0.2", []⟩, .deliver false 0, .runUiTask true,
        .runUiTask false] = some w ∧
      (w.session true).scene = .sender ∧ (w.session false).scene = .receiver ∧
      (w.session false).pinnedPeer = some ⟨twoDevices.ip true⟩ := by
  have hrun : ∃ w ∈ (machine twoDevices).run (start twoDevices)
      [.click true ⟨false, [], .ofString "10.0.0.2", []⟩, .deliver false 0, .runUiTask true,
        .runUiTask false],
      w.inFlight = [] ∧ (∀ d, (w.session d).uiTasks = []) ∧ (w.session true).scene = .sender ∧
        (w.session true).pinnedPeer = some ⟨twoDevices.ip false⟩ := by
    decide +kernel
  obtain ⟨w, hw, hflight, htasks, hscene, hpin⟩ := hrun
  obtain ⟨hreceiver, -, honly⟩ :=
    (handshake_agreement hw ⟨hflight, htasks⟩).1 true false hscene hpin (by simp)
  refine ⟨w, hw, hscene, hreceiver, honly ?_⟩
  rintro e ⟨entry, hentry, -⟩
  simp only [List.mem_cons, List.not_mem_nil, or_false, Step.click.injEq, reduceCtorEq] at hentry
  exact hentry.1

open Handshake in
/-- Two devices click on each other before either request arrives, and both become senders. -/
theorem handshake_crossing :
    ¬ ∀ ls w, (machine twoDevices).run (start twoDevices) ls = some w → w.Quiescent →
      ∀ a b, (w.session a).scene = .sender →
        (w.session a).pinnedPeer = some ⟨twoDevices.ip b⟩ →
        (w.session b).scene = .receiver ∧
          (w.session b).pinnedPeer = some ⟨twoDevices.ip a⟩ := by
  intro hagree
  have hrun : ∃ w ∈ (machine twoDevices).run (start twoDevices)
      [.click true ⟨false, [], .ofString "10.0.0.2", []⟩,
        .click false ⟨false, [], .ofString "10.0.0.1", []⟩,
        .runUiTask true, .runUiTask false, .deliver false 0, .deliver true 0],
      w.inFlight = [] ∧ (∀ d, (w.session d).uiTasks = []) ∧
        ∀ d, (w.session d).scene = .sender ∧
          (w.session d).pinnedPeer = some ⟨twoDevices.ip (!d)⟩ := by
    decide +kernel
  obtain ⟨w, hw, hflight, htasks, hsenders⟩ := hrun
  have hreceiver : (w.session false).scene = .receiver :=
    (hagree _ w hw ⟨hflight, htasks⟩ true false (hsenders true).1 (hsenders true).2).1
  rw [(hsenders false).1] at hreceiver
  cases hreceiver

end Keyleport
