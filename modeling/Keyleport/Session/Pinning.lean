import Keyleport.Session.Device
import Keyleport.Lib.Json.Text
import Mathlib.Data.Option.Basic

/-!
# Pinning isolates a session

Once a peer is pinned, only its messages and the clicks of the local user can change a session.
The pin is re-written by the home scene's callback, which runs behind the pin filter, and the
subscriptions change with scene switches that wait in a queue, so the argument is an invariant
over the pin, the connected device, the scene, the subscriptions and the pending tasks.

* `Session.PinInvariant.run`: the invariant holds in every reachable state.
* `Session.InjectionEffect`: which events handling a message can inject.
* `pinning_isolates`: the pin is stable until a click, messages of other hosts do nothing,
  injected events come from the pinned address, and runs that differ in messages of other hosts
  only have the same outcome.
-/

namespace Keyleport

namespace Session

variable {lib : Nlohmann} {host : Host} {s s' : Session}

/-! ## The invariant -/

/-- The relation between the pin and the rest of a reachable state. -/
structure PinInvariant (s : Session) : Prop where
  /-- The connected device has the pinned address. -/
  connected : ∀ c, s.connectedDevice = some c → s.pinnedPeer = some ⟨c.ip⟩
  /-- Without a pin the home scene is shown, no task is pending and nobody else subscribes. -/
  unpinned : s.pinnedPeer = none →
    s.scene = .home ∧ s.uiTasks = [] ∧ ∀ cb ∈ s.onPackage.callbacks, cb = .homeScene
  /-- Every injected event came from the address pinned at that moment. -/
  injected : ∀ i ∈ s.injected, i.pinnedPeer = some ⟨i.source⟩

/-! ## Injected events -/

/-- Handling a message injects events only while its sender is pinned, and they are recorded
with its address. -/
def InjectionEffect (msg : Message) (s s' : Session) : Prop :=
  s'.injected = s.injected ∨
    s.pinnedPeer = some msg.sender ∧ ∃ new : List Injection, s'.injected = s.injected ++ new ∧
      ∀ i ∈ new, i.source = msg.sender.ipAddress ∧ i.pinnedPeer = some msg.sender

/-- A message that passes the filter of a pinned session is from the pinned peer. -/
theorem pinnedPeer_of_not_ignores {msg : Message} {p : Peer} (hp : s.pinnedPeer = some p)
    (h : s.ignores msg = false) : p = msg.sender := by
  have hip : msg.sender.ipAddress = p.ipAddress := by
    simpa [ignores, hp] using h
  cases p
  exact congrArg Peer.mk hip.symm

/-- With the sender pinned, one callback injects at most events of the sender. -/
private theorem injected_invoke {msg : Message} {package : TypedPackage}
    (hmeta : package.metaMessage = msg) {cb : PackageCallback} {t t' : Session}
    (hpin : t.pinnedPeer = some msg.sender) (h : invoke lib package cb t = .ok t') :
    t'.pinnedPeer = some msg.sender ∧
      ∃ new : List Injection, t'.injected = t.injected ++ new ∧
        ∀ i ∈ new, i.source = msg.sender.ipAddress ∧ i.pinnedPeer = some msg.sender := by
  cases cb with
  | homeScene =>
    rcases homeOnPackage_cases h with rfl | ⟨c, -, -, hip, rfl⟩
    · exact ⟨hpin, [], (List.append_nil _).symm, by simp⟩
    · rw [hmeta] at hip
      have hpin' : some (⟨c.ip⟩ : Peer) = some msg.sender := by rw [hip]
      exact ⟨hpin', [], (List.append_nil _).symm, by simp⟩
  | receiverScene emitter =>
    rcases receiverOnPackage_cases h with rfl | ⟨event, rfl⟩
    · exact ⟨hpin, [], (List.append_nil _).symm, by simp⟩
    · refine ⟨hpin, _, rfl, ?_⟩
      intro i hi
      obtain rfl := List.mem_singleton.1 hi
      exact ⟨congrArg (·.sender.ipAddress) hmeta, hpin⟩

theorem injectionEffect_of_onMessage {msg : Message} (hs : s.PinInvariant)
    (h : onMessage lib s msg = .ok s') : InjectionEffect msg s s' := by
  cases hmsg : s.ignores msg with
  | true =>
    rw [onMessage_of_ignores hmsg] at h
    obtain rfl := Except.ok.inj h
    exact Or.inl rfl
  | false =>
    obtain ⟨package, -, hemit⟩ := onMessage_eq_ok hmsg h
    cases hpin : s.pinnedPeer with
    | none =>
      -- only the home scene is subscribed, and it injects nothing
      have hhome := (hs.unpinned hpin).2.2
      refine Or.inl (EventEmitter.emit_invariant (P := fun t => t.injected = s.injected)
        (fun cb hcb t t' ht hinv => ?_) rfl hemit)
      obtain rfl := hhome cb hcb
      rcases homeOnPackage_cases hinv with rfl | ⟨_, -, -, -, rfl⟩
      · exact ht
      · exact ht
    | some p =>
      -- the sender is the pinned peer, and stays it from one subscriber to the next
      obtain rfl := pinnedPeer_of_not_ignores hpin hmsg
      refine Or.inr ⟨hpin, ?_⟩
      have hnew : s'.pinnedPeer = some msg.sender ∧
          ∃ new : List Injection, s'.injected = s.injected ++ new ∧
            ∀ i ∈ new, i.source = msg.sender.ipAddress ∧ i.pinnedPeer = some msg.sender := by
        refine EventEmitter.emit_invariant (P := fun t => t.pinnedPeer = some msg.sender ∧
          ∃ new : List Injection, t.injected = s.injected ++ new ∧
            ∀ i ∈ new, i.source = msg.sender.ipAddress ∧ i.pinnedPeer = some msg.sender)
          (fun cb _ t t' ht hinv => ?_) ⟨hpin, [], (List.append_nil _).symm, by simp⟩ hemit
        obtain ⟨htpin, new, hnew, hall⟩ := ht
        obtain ⟨htpin', new', hnew', hall'⟩ := injected_invoke rfl htpin hinv
        refine ⟨htpin', new ++ new', ?_, ?_⟩
        · rw [hnew', hnew, List.append_assoc]
        · intro i hi
          rcases List.mem_append.1 hi with hi | hi
          · exact hall i hi
          · exact hall' i hi
      exact hnew.2

/-! ## The invariant over runs -/

/-- Only messages inject events. -/
theorem injected_of_step {l : Step} (hs : s.PinInvariant) (h : step lib host s l = some s') :
    s'.injected = s.injected ∨ ∃ msg, l = .message msg ∧ InjectionEffect msg s s' := by
  rcases step_cases h with ⟨msg, rfl, hmsg⟩ | ⟨d, rfl, -, -, -, hclick⟩ |
    ⟨task, tasks, rfl, htasks, rfl⟩ | ⟨ds, rfl, rfl⟩
  · exact Or.inr ⟨msg, rfl, injectionEffect_of_onMessage hs hmsg⟩
  · obtain ⟨_, _, -, -, rfl⟩ := connectClicked_eq_ok hclick
    exact Or.inl rfl
  · obtain ⟨onPackage, id, hscene⟩ := setScene_task host { s with uiTasks := tasks } task
    rw [hscene]
    exact Or.inl rfl
  · exact Or.inl rfl

theorem PinInvariant.init : PinInvariant init where
  connected c hc := by cases hc
  unpinned _ := ⟨rfl, rfl, by simp⟩
  injected i hi := by cases hi

/-- A step keeps the record of injected events right. -/
private theorem PinInvariant.injected_step {l : Step} (hs : s.PinInvariant)
    (h : step lib host s l = some s') : ∀ i ∈ s'.injected, i.pinnedPeer = some ⟨i.source⟩ := by
  rcases injected_of_step hs h with hsame | ⟨msg, -, hsame | ⟨-, new, hnew, hall⟩⟩
  · rw [hsame]
    exact hs.injected
  · rw [hsame]
    exact hs.injected
  · rw [hnew]
    intro i hi
    rcases List.mem_append.1 hi with hi | hi
    · exact hs.injected i hi
    · obtain ⟨hsource, hpin⟩ := hall i hi
      rw [hpin, hsource]

/-- Every step keeps the invariant. -/
theorem PinInvariant.step {l : Step} (hs : s.PinInvariant) (h : step lib host s l = some s') :
    s'.PinInvariant := by
  have hinjected := hs.injected_step h
  rcases step_cases h with ⟨msg, rfl, hmsg⟩ | ⟨d, rfl, -, -, -, hclick⟩ |
    ⟨task, tasks, rfl, htasks, rfl⟩ | ⟨ds, rfl, rfl⟩
  · have heff := messageEffect_of_onMessage hmsg
    rcases heff.accepts with ⟨hpin, hconn, huiTasks⟩ | ⟨hpin, ⟨c, hip, hconn⟩, -⟩
    · -- nobody was accepted
      refine ⟨?_, ?_, hinjected⟩
      · rw [hpin, hconn]
        exact hs.connected
      · rw [hpin, heff.scene, huiTasks, heff.onPackage]
        exact hs.unpinned
    · -- the sender was accepted: it is pinned, and the connected device has its address
      refine ⟨fun c' hc' => ?_, fun hnone => ?_, hinjected⟩
      · rw [hconn] at hc'
        obtain rfl := Option.some.inj hc'
        rw [hpin, hip]
      · rw [hpin] at hnone
        cases hnone
  · -- a click connects and pins the same device
    obtain ⟨_, _, -, -, rfl⟩ := connectClicked_eq_ok hclick
    refine ⟨fun c hc => ?_, fun hnone => ?_, hinjected⟩
    · obtain rfl := Option.some.inj hc
      rfl
    · cases hnone
  · -- a pending task means that a peer is pinned
    obtain ⟨onPackage, id, hscene⟩ := setScene_task host { s with uiTasks := tasks } task
    rw [hscene] at hinjected ⊢
    refine ⟨hs.connected, fun hnone => ?_, hinjected⟩
    have hempty : s.uiTasks = [] := (hs.unpinned hnone).2.1
    rw [htasks] at hempty
    cases hempty
  · exact ⟨hs.connected, hs.unpinned, hinjected⟩

theorem PinInvariant.run {ls : List Step} (h : (machine lib host).run Session.init ls = some s) :
    s.PinInvariant :=
  Machine.run_invariant (fun _ _ _ hI hstep => hI.step hstep) PinInvariant.init h

/-! ## Isolation -/

/-- Whether a step is a click. -/
def Step.isClick : Step → Bool
  | connectClick _ => true
  | _ => false

/-- Whether a step is something else than a message of a host other than `p`. -/
def Step.visible (p : Peer) : Step → Bool
  | message msg => msg.sender.ipAddress = p.ipAddress
  | _ => true

/-- Between clicks the pin does not move. -/
theorem pinnedPeer_step {l : Step} {p : Peer} (hp : s.pinnedPeer = some p)
    (hl : l.isClick = false) (h : step lib host s l = some s') : s'.pinnedPeer = some p := by
  rcases step_cases h with ⟨msg, rfl, hmsg⟩ | ⟨d, rfl, -, -, -, -⟩ |
    ⟨task, tasks, rfl, htasks, rfl⟩ | ⟨ds, rfl, rfl⟩
  · cases hign : s.ignores msg with
    | true =>
      rw [onMessage_of_ignores hign] at hmsg
      obtain rfl := Except.ok.inj hmsg
      exact hp
    | false =>
      -- the pinned peer itself may be accepted again, which pins it again
      obtain rfl := pinnedPeer_of_not_ignores hp hign
      rcases (messageEffect_of_onMessage hmsg).accepts with ⟨hpin, -⟩ | ⟨hpin, -⟩
      · exact hpin.trans hp
      · exact hpin
  · cases hl
  · obtain ⟨onPackage, id, hscene⟩ := setScene_task host { s with uiTasks := tasks } task
    rw [hscene]
    exact hp
  · exact hp

/-- A message from a host that is not pinned changes nothing. -/
theorem step_of_not_visible {l : Step} {p : Peer} (hp : s.pinnedPeer = some p)
    (hl : l.visible p = false) : step lib host s l = some s := by
  cases l with
  | message msg =>
    have hign : s.ignores msg = true := by simpa [ignores, hp, Step.visible] using hl
    rw [step, onMessage_of_ignores hign]
    rfl
  | connectClick d => cases hl
  | runUiTask => cases hl
  | setAvailableDevices ds => cases hl

/-- Between clicks, dropping the messages of other hosts does not change the outcome of a run. -/
theorem run_filter_visible {p : Peer} (hp : s.pinnedPeer = some p) {ls : List Step}
    (hls : ∀ l ∈ ls, l.isClick = false) :
    (machine lib host).run s (ls.filter (Step.visible p)) = (machine lib host).run s ls :=
  Machine.run_filter (I := fun t => t.pinnedPeer = some p) (P := fun l => l.isClick = false)
    (fun _ _ _ hl ht h => pinnedPeer_step ht hl h) (fun _ _ _ ht hl => step_of_not_visible ht hl)
    hls hp

end Session

open Session in
/-- Pinning isolates a session. In every reachable state the connected device has the pinned
address, the receiver scene is shown only with a pin, and a step injects events only while
handling a message of the pinned peer. While `p` is pinned, the pin stays until a click, a
message of another host changes nothing, and two runs without clicks that agree once the
messages of other hosts are dropped have the same outcome. -/
theorem pinning_isolates {lib : Nlohmann} {host : Host} {ls : List Step} {s : Session}
    (h : (machine lib host).run init ls = some s) :
    (∀ c, s.connectedDevice = some c → s.pinnedPeer = some ⟨c.ip⟩) ∧
    (s.scene = .receiver → s.pinnedPeer ≠ none) ∧
    (∀ i ∈ s.injected, i.pinnedPeer = some ⟨i.source⟩) ∧
    (∀ l s', step lib host s l = some s' → s'.injected = s.injected ∨
      ∃ msg, l = .message msg ∧ s.pinnedPeer = some msg.sender ∧
        ∃ new : List Injection, s'.injected = s.injected ++ new ∧
          ∀ i ∈ new, i.source = msg.sender.ipAddress ∧ i.pinnedPeer = some msg.sender) ∧
    ∀ p, s.pinnedPeer = some p →
      (∀ ls' s', (∀ l ∈ ls', l.isClick = false) →
        (machine lib host).run s ls' = some s' → s'.pinnedPeer = some p) ∧
      (∀ msg : Message, msg.sender.ipAddress ≠ p.ipAddress →
        step lib host s (.message msg) = some s) ∧
      ∀ ls₁ ls₂ : List Step, (∀ l ∈ ls₁, l.isClick = false) → (∀ l ∈ ls₂, l.isClick = false) →
        ls₁.filter (Step.visible p) = ls₂.filter (Step.visible p) →
        (machine lib host).run s ls₁ = (machine lib host).run s ls₂ := by
  have hs : s.PinInvariant := PinInvariant.run h
  refine ⟨hs.connected, fun hscene hnone => ?_, hs.injected, fun l s' hstep => ?_,
    fun p hp => ⟨fun ls' t hls' hrun => ?_, fun msg hmsg => ?_, fun ls₁ ls₂ h₁ h₂ heq => ?_⟩⟩
  · have hhome : s.scene = .home := (hs.unpinned hnone).1
    rw [hscene] at hhome
    cases hhome
  · -- an injection is the work of a message, and its sender was pinned
    rcases injected_of_step hs hstep with hsame | ⟨msg, rfl, hsame | ⟨hpin, hnew⟩⟩
    · exact Or.inl hsame
    · exact Or.inl hsame
    · exact Or.inr ⟨msg, rfl, hpin, hnew⟩
  · exact Machine.run_invariant_of_forall (I := fun t => t.pinnedPeer = some p)
      (P := fun l => l.isClick = false) (fun _ _ _ hl ht hstep => pinnedPeer_step ht hl hstep)
      hls' hp hrun
  · exact step_of_not_visible hp (by simpa [Step.visible] using hmsg)
  · calc (machine lib host).run s ls₁
        = (machine lib host).run s (ls₁.filter (Step.visible p)) :=
          (run_filter_visible hp h₁).symm
      _ = (machine lib host).run s (ls₂.filter (Step.visible p)) := by rw [heq]
      _ = (machine lib host).run s ls₂ := run_filter_visible hp h₂

/-- A run of the device `a`: it lists `10.0.0.2`, accepts its request, shows the receiver scene
and receives one event. -/
def Session.acceptAndType : List Session.Step :=
  [.setAvailableDevices [⟨false, .ofString "b", .ofString "10.0.0.2", []⟩],
    .message ⟨⟨.ofString "10.0.0.2"⟩, .self, .ofString
      "\x7b\"__typename\":\"become_receiver\",\"payload\":\"\"\x7d"⟩,
    .runUiTask,
    .message ⟨⟨.ofString "10.0.0.2"⟩, .self, .ofString
      "\x7b\"__typename\":\"keyboard_input\",\"payload\":\"\x7b\\\"code\\\":30\x7d\"\x7d"⟩]

open Session in
/-- After this run the event is injected, and whatever `10.0.0.3` sends changes nothing. -/
theorem pinning_isolates_receiver :
    ∃ s, (machine JsonText.nlohmann ⟨.ofString "a", true⟩).run init acceptAndType = some s ∧
      s.scene = .receiver ∧
      s.injected = [⟨⟨.key, .down, 30, 0, 0⟩, .ofString "10.0.0.2", some ⟨.ofString "10.0.0.2"⟩⟩] ∧
      ∀ payload, step JsonText.nlohmann ⟨.ofString "a", true⟩ s
        (.message ⟨⟨.ofString "10.0.0.3"⟩, .self, payload⟩) = some s := by
  have hrun : ∃ s ∈ (machine JsonText.nlohmann ⟨.ofString "a", true⟩).run init acceptAndType,
      s.scene = .receiver ∧
      s.injected = [⟨⟨.key, .down, 30, 0, 0⟩, .ofString "10.0.0.2", some ⟨.ofString "10.0.0.2"⟩⟩] ∧
      s.pinnedPeer = some ⟨.ofString "10.0.0.2"⟩ := by
    decide +kernel
  obtain ⟨s, hs, hscene, hinjected, hpin⟩ := hrun
  have hother : StdString.ofString "10.0.0.3" ≠ .ofString "10.0.0.2" := by decide
  exact ⟨s, hs, hscene, hinjected, fun payload =>
    ((pinning_isolates hs).2.2.2.2 _ hpin).2.1 _ hother⟩

end Keyleport
