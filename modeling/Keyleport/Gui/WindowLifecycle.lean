import Keyleport.Gui.Window
import Keyleport.Lib.Except

/-!
# What the window does with its resources

However the functions of the framework are called and whatever SDL answers, the window uses SDL and
Dear ImGui as they demand, mounts and unmounts scenes in turn, sends each event one way, and only
keeps the mouse while the sender scene contains it.

* `Gui.Traced`: what holds of the calls made, in the middle of an operation too.
* `Gui.Showing`, `Gui.Gone`: the two kinds of states between calls of the framework.
* `window_resources`, `window_scenes`, `window_mouse`: the three protocols of the window.
* `window_events`: what reaches the flow is what the sender scene alone would forward.
-/

namespace Keyleport

namespace Gui

/-! ## The calls made -/

/-- The event that a call polls. -/
def polled? : GuiCall → Option PolledEvent
  | .pollEvent event => some event
  | _ => none

/-- The event that a call gives to the flow. -/
def pushed? : GuiCall → Option InputEvent
  | .pushEvent event => some event
  | _ => none

/-- The event of a step of the sender scene. -/
def event? : SenderScene.Step → Option SdlEvent
  | .event e => some e
  | _ => none

/-- What SDL was asked to do with the mouse last. -/
def confinement (calls : List GuiCall) : Confinement := calls.foldl .after .free

/-- SDL was asked to keep the mouse if the sender scene contains it, and to free it otherwise. -/
def Confined (sender : SenderScene) (m : Confinement) : Prop :=
  if sender.mounted ∧ sender.isMouseContained then m.grab = true ∧ m.relative = true
  else m = .free

/-- What holds of the calls made, of the sender scene, and of the scene that is mounted. -/
structure Traced (e : GuiLibrary) (mounted : Option Scene) (sender : SenderScene)
    (calls : List GuiCall) : Prop where
  library : GuiLibrary.machine.run .new calls = some e
  scenes : sceneMachine.run none calls = some mounted
  routing : routingMachine.run none calls = some none
  mounted : sender.mounted = decide (mounted = some .sender)
  confinement : Confined sender (confinement calls)
  refines : ∃ ls, SenderScene.machine.run .init ls = some sender ∧
    ls.filterMap event? = (calls.filterMap polled?).map PolledEvent.raw
  pushed : calls.filterMap pushed? = sender.forwarded

variable {e e' : GuiLibrary} {mounted mounted' scene : Option Scene} {sender sender' : SenderScene}
variable {calls new : List GuiCall} {s s' : Gui} {inFrame : Bool} {answers : InitAnswers}
variable {size : Int32 × Int32}

theorem Traced.start : Traced .new none .init [] :=
  ⟨rfl, rfl, rfl, rfl, by rw [Confined, if_neg (by decide)]; rfl, ⟨[], rfl, rfl⟩, rfl⟩

/-- More calls, together with steps of the sender scene. -/
theorem Traced.append (h : Traced e mounted sender calls) (ls : List SenderScene.Step)
    (hlibrary : GuiLibrary.machine.run e new = some e')
    (hscenes : sceneMachine.run mounted new = some mounted')
    (hrouting : routingMachine.run none new = some none)
    (hsender : SenderScene.machine.run sender ls = some sender')
    (hpolled : ls.filterMap event? = (new.filterMap polled?).map PolledEvent.raw)
    (hpushed : sender'.forwarded = sender.forwarded ++ new.filterMap pushed?)
    (hmounted : sender'.mounted = decide (mounted' = some .sender))
    (hconfined : Confined sender' (new.foldl .after (Gui.confinement calls))) :
    Traced e' mounted' sender' (calls ++ new) := by
  obtain ⟨ls₀, hls₀, hevents⟩ := h.refines
  refine ⟨?_, ?_, ?_, hmounted, ?_, ⟨ls₀ ++ ls, ?_, ?_⟩, ?_⟩
  · rw [Machine.run_append, h.library]
    exact hlibrary
  · rw [Machine.run_append, h.scenes]
    exact hscenes
  · rw [Machine.run_append, h.routing]
    exact hrouting
  · rw [Gui.confinement, List.foldl_append]
    exact hconfined
  · rw [Machine.run_append, hls₀]
    exact hsender
  · rw [List.filterMap_append, List.filterMap_append, List.map_append, hevents, hpolled]
  · rw [List.filterMap_append, h.pushed, hpushed]

/-- More calls that have nothing to do with the sender scene or with the mouse. -/
theorem Traced.append_other (h : Traced e mounted sender calls)
    (hlibrary : GuiLibrary.machine.run e new = some e')
    (hscenes : sceneMachine.run mounted new = some mounted')
    (hrouting : routingMachine.run none new = some none)
    (hpolled : new.filterMap polled? = []) (hpushed : new.filterMap pushed? = [])
    (hmouse : new.foldl .after (Gui.confinement calls) = Gui.confinement calls)
    (hsender : decide (mounted' = some .sender) = decide (mounted = some .sender)) :
    Traced e' mounted' sender (calls ++ new) := by
  refine h.append [] hlibrary hscenes hrouting rfl ?_ ?_ (h.mounted.trans hsender.symm) ?_
  · rw [hpolled]
    rfl
  · rw [hpushed, List.append_nil]
  · rw [hmouse]
    exact h.confinement

/-- Without the sender scene, the mouse is free. -/
theorem Traced.free (h : Traced e mounted sender calls) (hne : mounted ≠ some .sender) :
    Gui.confinement calls = .free := by
  have hunmounted : sender.mounted = false := h.mounted.trans (decide_eq_false hne)
  have hconfined := h.confinement
  rwa [Confined, if_neg (by simp [hunmounted])] at hconfined

/-! ## Operations on a window -/

/-- A window that is initialised. -/
def showing (scene : Option Scene) : SdlImGuiWindow := ⟨true, true, true, scene⟩

/-- The window is there already. -/
theorem getWindow_of_showing (h : s.singleton = some (showing scene)) (answers : InitAnswers) :
    s.getWindow answers = .ok s := by
  rw [getWindow, h]
  show Except.ok { s with singleton := some (showing scene) } = .ok s
  rw [← h]

/-- The calls that confine the mouse. -/
def applyCalls (size : Int32 × Int32) : List GuiCall :=
  [.setMouseGrab true, .getWindowSize] ++
    (if size.1 ≤ 0 ∨ size.2 ≤ 0 then [] else [.setMouseRect (some size)]) ++
    [.setRelativeMouseMode true]

/-- The calls that free the mouse. -/
def releaseCalls : List GuiCall :=
  [.setRelativeMouseMode false, .setMouseGrab false, .setMouseRect none]

theorem senderApply_of_showing (h : s.singleton = some (showing scene)) (answers : InitAnswers)
    (size : Int32 × Int32) : s.senderApply answers size =
      .ok { s.call (applyCalls size) with
        sender := { s.sender with isMouseContained := true } } := by
  have happly : s.applyMouseConfinement size = s.call (applyCalls size) := by
    rw [applyMouseConfinement, h]
    rfl
  rw [senderApply, getWindow_of_showing h]
  show Except.ok { s.applyMouseConfinement size with
    sender := { (s.applyMouseConfinement size).sender with isMouseContained := true } } = _
  rw [happly]
  rfl

theorem senderRelease_of_showing (h : s.singleton = some (showing scene)) (answers : InitAnswers) :
    s.senderRelease answers =
      .ok { s.call releaseCalls with sender := { s.sender with isMouseContained := false } } := by
  have hrelease : s.releaseMouseConfinement = s.call releaseCalls := by
    rw [releaseMouseConfinement, h]
    rfl
  rw [senderRelease, getWindow_of_showing h]
  show Except.ok { s.releaseMouseConfinement with
    sender := { s.releaseMouseConfinement.sender with isMouseContained := false } } = _
  rw [hrelease]
  rfl

/-- Confining the mouse is allowed while there is a window, and is no event. -/
theorem applyCalls_spec (inFrame : Bool) (mounted : Option Scene) (size : Int32 × Int32)
    (m : Confinement) :
    GuiLibrary.machine.run (.live inFrame) (applyCalls size) = some (.live inFrame) ∧
    sceneMachine.run mounted (applyCalls size) = some mounted ∧
    routingMachine.run none (applyCalls size) = some none ∧
    (applyCalls size).filterMap polled? = [] ∧ (applyCalls size).filterMap pushed? = [] ∧
    ((applyCalls size).foldl .after m).grab = true ∧
    ((applyCalls size).foldl .after m).relative = true := by
  rw [applyCalls]
  split <;> exact ⟨rfl, rfl, rfl, rfl, rfl, rfl, rfl⟩

/-! ## Scenes -/

/-- There is a window, which shows a scene; another may be mounted in the middle of a change. -/
structure Showing (inFrame : Bool) (scene mounted : Option Scene) (s : Gui) : Prop where
  singleton : s.singleton = some (showing scene)
  terminated : s.terminated = false
  traced : Traced (.live inFrame) mounted s.sender s.calls

theorem Showing.scene_eq (h : Showing inFrame scene mounted s) : s.scene = scene := by
  rw [Gui.scene, h.singleton]
  rfl

theorem Showing.withScene (h : Showing inFrame scene mounted s) (scene' : Option Scene) :
    Showing inFrame scene' mounted (s.withScene scene') :=
  ⟨by rw [Gui.withScene, h.singleton]; rfl, h.terminated, h.traced⟩

/-- To the sender scene, mounting another scene changes nothing. -/
theorem decide_sender_of_ne {x : Scene} (hx : x ≠ .sender) :
    decide (some x = some Scene.sender) = decide ((none : Option Scene) = some .sender) := by
  simp [hx]

theorem Showing.didMount (h : Showing inFrame scene none s) (answers : InitAnswers)
    (size : Int32 × Int32) (x : Scene) :
    ∃ s', s.didMount answers size x = .ok s' ∧ Showing inFrame scene (some x) s' := by
  rw [Gui.didMount]
  split
  next hx =>
    subst hx
    have hunmounted : s.sender.mounted = false := h.traced.mounted
    obtain ⟨hlibrary, hscenes, hrouting, hpolled, hpushed, hgrab, hrelative⟩ :=
      applyCalls_spec inFrame (some .sender) size
        (([.didMount .sender] : List GuiCall).foldl .after (Gui.confinement s.calls))
    have happly := senderApply_of_showing (s := s.call [.didMount .sender]) h.singleton answers size
    rw [happly]
    refine ⟨_, rfl, h.singleton, h.terminated, ?_⟩
    show Traced _ _ _ (s.calls ++ [.didMount .sender] ++ applyCalls size)
    rw [List.append_assoc]
    refine h.traced.append [.mount] hlibrary hscenes hrouting ?_ ?_ ?_ rfl ?_
    · simp [Machine.run, SenderScene.machine, SenderScene.step, hunmounted]
    · rw [List.filterMap_append, hpolled]
      rfl
    · rw [List.filterMap_append, hpushed]
      exact (List.append_nil _).symm
    · rw [Confined, if_pos ⟨rfl, rfl⟩]
      exact ⟨hgrab, hrelative⟩
  next hx =>
    exact ⟨_, rfl, h.singleton, h.terminated,
      h.traced.append_other rfl rfl rfl rfl rfl rfl (decide_sender_of_ne hx)⟩

theorem Showing.willUnmount {x : Scene} (h : Showing inFrame scene (some x) s)
    (answers : InitAnswers) :
    ∃ s', s.willUnmount answers x = .ok s' ∧ Showing inFrame scene none s' := by
  have hscenes : sceneMachine.run (some x) [.willUnmount x] = some none := by
    simp [Machine.run, sceneMachine, sceneStep]
  rw [Gui.willUnmount]
  split
  next hx =>
    subst hx
    have hmounted : s.sender.mounted = true := h.traced.mounted
    have hrelease :=
      senderRelease_of_showing (s := s.call [.willUnmount .sender]) h.singleton answers
    rw [hrelease]
    refine ⟨_, rfl, h.singleton, h.terminated, ?_⟩
    show Traced _ _ _ (s.calls ++ [.willUnmount .sender] ++ releaseCalls)
    rw [List.append_assoc]
    refine h.traced.append [.unmount] rfl rfl rfl ?_ rfl ?_ rfl ?_
    · simp [Machine.run, SenderScene.machine, SenderScene.step, hmounted]
    · exact (List.append_nil _).symm
    · rw [Confined, if_neg (by simp)]
      rfl
  next hx =>
    refine ⟨_, rfl, h.singleton, h.terminated,
      h.traced.append_other rfl hscenes rfl rfl rfl rfl (decide_sender_of_ne hx).symm⟩

/-- The scene is unmounted, if there is one. -/
theorem Showing.unmount (h : Showing inFrame scene scene s) (answers : InitAnswers) :
    ∃ s', scene.elim (.ok s) (s.willUnmount answers) = .ok s' ∧ Showing inFrame scene none s' := by
  cases scene with
  | none => exact ⟨s, rfl, h⟩
  | some x => exact h.willUnmount answers

theorem Showing.setScene (h : Showing inFrame scene scene s) (answers : InitAnswers)
    (size : Int32 × Int32) (scene' : Option Scene) :
    ∃ s', s.setScene answers size scene' = .ok s' ∧ Showing inFrame scene' scene' s' := by
  rw [Gui.setScene, h.scene_eq]
  split
  next heq => exact ⟨s, rfl, heq ▸ h⟩
  next =>
    obtain ⟨t, ht, hunmounted⟩ := h.unmount answers
    rw [ht]
    show ∃ s', scene'.elim (.ok (t.withScene scene'))
      ((t.withScene scene').didMount answers size) = .ok s' ∧ _
    have hset := hunmounted.withScene scene'
    cases scene' with
    | none => exact ⟨_, rfl, hset⟩
    | some x => exact hset.didMount answers size x

/-! ## Events -/

theorem senderHandleInput_of_showing (h : s.singleton = some (showing scene))
    (answers : InitAnswers) (e : SdlEvent) : s.senderHandleInput answers e =
      .ok { s.call
          (if SenderScene.isReleaseHotkey s.sender.pressed e then releaseCalls else []) with
        sender := s.sender.handleInput e } := by
  rw [senderHandleInput]
  split
  next hkey =>
    -- the mouse is released already when the scene tests for it
    have hsame : { s.sender with isMouseContained := false }.handleInput e =
        s.sender.handleInput e := by
      simp [SenderScene.handleInput, hkey]
    rw [senderRelease_of_showing h]
    show Except.ok { s.call releaseCalls with
      sender := { s.sender with isMouseContained := false }.handleInput e } = _
    rw [hsame]
  next =>
    show Except.ok { s with sender := s.sender.handleInput e } = .ok { s.call [] with
      sender := s.sender.handleInput e }
    rw [call, List.append_nil]

section HandleInput

variable {t : SenderScene} {event : SdlEvent}

/-- The hotkey frees the mouse. -/
theorem handleInput_of_hotkey (hkey : SenderScene.isReleaseHotkey t.pressed event = true) :
    t.handleInput event = { t with isMouseContained := false } := by
  simp [SenderScene.handleInput, hkey]

/-- While the mouse is contained, other events are forwarded. -/
theorem handleInput_of_contained (hkey : SenderScene.isReleaseHotkey t.pressed event = false)
    (hcontained : t.isMouseContained = true) :
    t.handleInput event = { t with
      received := t.received ++ [event]
      forwarded := t.forwarded ++ [.fromSDL event] } := by
  simp [SenderScene.handleInput, hkey, hcontained]

theorem handleInput_of_free (hkey : SenderScene.isReleaseHotkey t.pressed event = false)
    (hcontained : t.isMouseContained = false) : t.handleInput event = t := by
  simp [SenderScene.handleInput, hkey, hcontained]

end HandleInput

/-- The sender scene when it gets an event. -/
def afterKeys (sender : SenderScene) (event : PolledEvent) : SenderScene :=
  { sender with pressed := SenderScene.updatePressed sender.pressed event.raw }

/-- The calls for an event that the sender scene gets. -/
def senderCalls (t : SenderScene) (event : PolledEvent) : List GuiCall :=
  [.pollEvent event] ++ [.handleInput .sender event] ++
    (if SenderScene.isReleaseHotkey t.pressed event.raw then releaseCalls else []) ++
    [if (t.handleInput event.raw).isMouseContained then .pushEvent (.fromSDL event.raw)
      else .processEvent event]

/-- Such an event is a step of the sender scene. -/
theorem Traced.senderCalls (h : Traced (.live inFrame) (some .sender) sender calls)
    (event : PolledEvent) :
    Traced (.live inFrame) (some .sender) ((afterKeys sender event).handleInput event.raw)
      (calls ++ senderCalls (afterKeys sender event) event) := by
  have hmounted : sender.mounted = true := h.mounted
  have hconfined : Confined (afterKeys sender event) (Gui.confinement calls) := h.confinement
  have hstep : SenderScene.machine.run sender [.event event.raw] =
      some ((afterKeys sender event).handleInput event.raw) := by
    simp [Machine.run, SenderScene.machine, SenderScene.step, SenderScene.pollEvent, hmounted,
      afterKeys]
  have hforwarded : (afterKeys sender event).forwarded = sender.forwarded := rfl
  have hmounted' : (afterKeys sender event).mounted = true := hmounted
  revert hconfined hstep hforwarded hmounted'
  generalize afterKeys sender event = t
  intro hconfined hstep hforwarded hmounted'
  cases hkey : SenderScene.isReleaseHotkey t.pressed event.raw with
  | true =>
    have hinput := handleInput_of_hotkey hkey
    have hcalls : Gui.senderCalls t event = [.pollEvent event, .handleInput .sender event] ++
        releaseCalls ++ [.processEvent event] := by
      rw [Gui.senderCalls, if_pos hkey, hinput]
      rfl
    rw [hinput] at hstep ⊢
    rw [hcalls]
    refine h.append [.event event.raw] rfl rfl ?_ hstep rfl ?_ hmounted' ?_
    · simp [Machine.run, routingMachine, routingStep, releaseCalls]
    · rw [← hforwarded]
      exact (List.append_nil _).symm
    · rw [Confined, if_neg (by simp)]
      rfl
  | false =>
    cases hcontained : t.isMouseContained with
    | true =>
      have hinput := handleInput_of_contained hkey hcontained
      have hcalls : Gui.senderCalls t event =
          [.pollEvent event, .handleInput .sender event, .pushEvent (.fromSDL event.raw)] := by
        simp [Gui.senderCalls, hkey, hinput, hcontained]
      rw [hinput] at hstep ⊢
      rw [hcalls]
      refine h.append [.event event.raw] rfl rfl ?_ hstep rfl ?_ hmounted' hconfined
      · simp [Machine.run, routingMachine, routingStep]
      · rw [← hforwarded]
        rfl
    | false =>
      have hinput := handleInput_of_free hkey hcontained
      have hcalls : Gui.senderCalls t event =
          [.pollEvent event, .handleInput .sender event, .processEvent event] := by
        simp [Gui.senderCalls, hkey, hinput, hcontained]
      rw [hinput] at hstep ⊢
      rw [hcalls]
      refine h.append [.event event.raw] rfl rfl ?_ hstep rfl ?_ hmounted' hconfined
      · simp [Machine.run, routingMachine, routingStep]
      · rw [← hforwarded]
        exact (List.append_nil _).symm

/-- The calls for an event that no sender scene gets. -/
def otherCalls (mounted : Option Scene) (event : PolledEvent) : List GuiCall :=
  .pollEvent event :: (mounted.map fun x => GuiCall.handleInput x event).toList ++
    [.processEvent event]

theorem Traced.otherCalls (h : Traced (.live inFrame) mounted sender calls)
    (hne : mounted ≠ some .sender) (event : PolledEvent) :
    Traced (.live inFrame) mounted (afterKeys sender event)
      (calls ++ otherCalls mounted event) := by
  have hunmounted : sender.mounted = false := h.mounted.trans (decide_eq_false hne)
  have hstep : SenderScene.machine.run sender [.event event.raw] =
      some (afterKeys sender event) := by
    simp [Machine.run, SenderScene.machine, SenderScene.step, SenderScene.pollEvent, hunmounted,
      afterKeys]
  cases mounted with
  | none =>
    refine h.append [.event event.raw] rfl rfl ?_ hstep rfl (List.append_nil _).symm h.mounted
      h.confinement
    simp [Gui.otherCalls, Machine.run, routingMachine, routingStep]
  | some x =>
    refine h.append [.event event.raw] rfl ?_ ?_ hstep rfl (List.append_nil _).symm h.mounted
      h.confinement
    · simp [Gui.otherCalls, Machine.run, sceneMachine, sceneStep]
    · simp [Gui.otherCalls, Machine.run, routingMachine, routingStep]

theorem Showing.pollEvent (h : Showing inFrame scene scene s) (answers : InitAnswers)
    (event : PolledEvent) :
    ∃ s', s.pollEvent answers event = .ok s' ∧ Showing inFrame scene scene s' := by
  have hscene : ((s.call [.pollEvent event]).updateKeys event).scene = scene := h.scene_eq
  rw [Gui.pollEvent, dispatchEvent, hscene]
  cases scene with
  | none =>
    refine ⟨_, rfl, h.singleton, h.terminated, ?_⟩
    show Traced _ _ (afterKeys s.sender event)
      (s.calls ++ [.pollEvent event] ++ [.processEvent event])
    rw [List.append_assoc]
    exact h.traced.otherCalls nofun event
  | some x =>
    have hother : x ≠ .sender → Traced (.live inFrame) (some x) (afterKeys s.sender event)
        (s.calls ++ [.pollEvent event] ++ [.handleInput x event, .processEvent event]) := by
      intro hx
      rw [List.append_assoc]
      exact h.traced.otherCalls (by simpa using hx) event
    cases x with
    | home => exact ⟨_, rfl, h.singleton, h.terminated, hother nofun⟩
    | receiver => exact ⟨_, rfl, h.singleton, h.terminated, hother nofun⟩
    | sender =>
      have hinput := senderHandleInput_of_showing
        (s := ((s.call [.pollEvent event]).updateKeys event).call [.handleInput .sender event])
        h.singleton answers event.raw
      simp only [hinput]
      refine ⟨_, rfl, h.singleton, h.terminated, ?_⟩
      have hcalls := h.traced.senderCalls event
      rw [Gui.senderCalls, ← List.append_assoc, ← List.append_assoc, ← List.append_assoc] at hcalls
      exact hcalls

/-- A click on Continue is a step of the sender scene. -/
theorem Showing.renderScene (h : Showing true scene scene s) (answers : InitAnswers)
    (continueClick : Option (Int32 × Int32)) :
    ∃ s', s.renderScene answers continueClick = .ok s' ∧ Showing true scene scene s' := by
  rw [Gui.renderScene, h.scene_eq]
  cases scene with
  | none => exact ⟨s, rfl, h⟩
  | some x =>
    have hrendered : Traced (.live true) (some x) s.sender (s.calls ++ [.renderScene x]) :=
      h.traced.append_other rfl (by simp [Machine.run, sceneMachine, sceneStep]) rfl rfl rfl rfl rfl
    have hshown : Showing true (some x) (some x) (s.call [.renderScene x]) :=
      ⟨h.singleton, h.terminated, hrendered⟩
    cases x with
    | home => exact ⟨_, rfl, hshown⟩
    | receiver => exact ⟨_, rfl, hshown⟩
    | sender =>
      simp only
      split
      · exact ⟨_, rfl, hshown⟩
      next hfree =>
        cases continueClick with
        | none => exact ⟨_, rfl, hshown⟩
        | some size =>
          have hfree : s.sender.isMouseContained = false := by simpa using hfree
          have hmounted : s.sender.mounted = true := h.traced.mounted
          obtain ⟨hlibrary, hscenes, hrouting, hpolled, hpushed, hgrab, hrelative⟩ :=
            applyCalls_spec true (some .sender) size
              (Gui.confinement (s.calls ++ [.renderScene .sender]))
          refine ⟨_, senderApply_of_showing hshown.singleton answers size, h.singleton,
            h.terminated, ?_⟩
          refine hrendered.append [.continueClick] hlibrary hscenes hrouting ?_ ?_ ?_ hmounted ?_
          · simp [Machine.run, SenderScene.machine, SenderScene.step, hfree, hmounted]
          · rw [hpolled]
            rfl
          · rw [hpushed]
            exact (List.append_nil _).symm
          · rw [Confined, if_pos ⟨hmounted, rfl⟩]
            exact ⟨hgrab, hrelative⟩

/-! ## The functions of the framework -/

theorem Showing.setWindowScene (h : Showing inFrame scene scene s) (answers : InitAnswers)
    (size : Int32 × Int32) (scene' : Option Scene) :
    ∃ s', s.setWindowScene answers size scene' = .ok s' ∧ Showing inFrame scene' scene' s' := by
  rw [Gui.setWindowScene, h.singleton]
  exact h.setScene answers size scene'

/-- A frame begins and ends outside a frame of Dear ImGui. -/
theorem Showing.frame (h : Showing false scene scene s) (answers : InitAnswers)
    (input : FrameInput) : ∃ s' scene',
      s.frame answers input = .ok (s', !input.events.any s.stopsRunning) ∧
      Showing false scene' scene' s' := by
  have hinitialized : s.initialized = true := by rw [initialized, h.singleton]; rfl
  rw [Gui.frame, if_pos hinitialized]
  obtain ⟨t, ht, hpolled⟩ := Except.foldlM_total (P := Showing false scene scene)
    (fun s event hs => hs.pollEvent answers event) input.events h
  rw [ht]
  have hframe : Showing true scene scene (t.call [.newFrame]) :=
    ⟨hpolled.singleton, hpolled.terminated,
      hpolled.traced.append_other rfl rfl rfl rfl rfl rfl rfl⟩
  obtain ⟨u, hu, hrendered⟩ := hframe.renderScene answers input.continueClick
  -- the tasks may change the scene
  obtain ⟨v, hv, scene', htasks⟩ := Except.foldlM_total
    (P := fun s => ∃ scene, Showing true scene scene s)
    (fun s (task : UiTask × Int32 × Int32) ⟨_, hs⟩ =>
      (hs.setWindowScene answers task.2 (some task.1.scene)).imp fun _ hs' => ⟨hs'.1, _, hs'.2⟩)
    input.tasks ⟨scene, hrendered⟩
  refine ⟨v.call [.render, .present], scene', ?_, htasks.singleton, htasks.terminated,
    htasks.traced.append_other rfl rfl rfl rfl rfl rfl rfl⟩
  show (do
    let s ← (t.call [.newFrame]).renderScene answers input.continueClick
    let s ← input.tasks.foldlM
      (fun s task => s.setWindowScene answers task.2 (some task.1.scene)) s
    return (s.call [.render, .present], !input.events.any _)) = Except.ok _
  rw [hu]
  show (do
    let s ← input.tasks.foldlM
      (fun s task => s.setWindowScene answers task.2 (some task.1.scene)) u
    return (s.call [.render, .present], !input.events.any _)) = Except.ok _
  rw [hv]
  rfl

/-- The events that end the program while there is a window. -/
theorem Showing.stopsRunning_iff (h : Showing inFrame scene mounted s) (event : PolledEvent) :
    s.stopsRunning event = true ↔ event = .quit ∨ event = .windowCloseRequested true := by
  have hwindow : s.singleton.any SdlImGuiWindow.window = true := by rw [h.singleton]; rfl
  cases event with
  | quit => simp [stopsRunning]
  | windowCloseRequested ours => simp [stopsRunning, hwindow]
  | input event => simp [stopsRunning]

/-! ## Without a window -/

/-- There is no window any more, or not yet, or an error has ended the program. -/
structure Gone (s : Gui) : Prop where
  singleton : s.singleton = none ∨ s.terminated = true ∧ s.singleton = some newWindow
  traced : Traced .new none s.sender s.calls

/-- The states between calls of the framework. -/
def Invariant (s : Gui) : Prop := (∃ scene, Showing false scene scene s) ∨ Gone s

/-- What a call of the framework leaves, whether it returns or an error ends the program. -/
def Performed : Except Gui Gui → Prop
  | .ok s => Invariant s
  | .error s => Gone { s with terminated := true }

theorem Showing.performed {r : Except Gui Gui}
    (h : ∃ s', r = .ok s' ∧ Showing false scene scene s') : Performed r := by
  obtain ⟨s', rfl, hs'⟩ := h
  exact .inl ⟨scene, hs'⟩

/-- If SDL gives no window or no renderer, what there was is given back before the error. -/
theorem init_spec (hs : s.singleton = some newWindow) (hterminated : s.terminated = false)
    (h : Traced .new none s.sender s.calls) (answers : InitAnswers) :
    (∃ s', s.init newWindow answers = .ok s' ∧ Showing false none none s') ∨
      ∃ s', s.init newWindow answers = .error s' ∧ Gone { s' with terminated := true } := by
  obtain ⟨window, renderer⟩ := answers
  have hfree := h.free nofun
  have happend : ∀ {e' cs}, GuiLibrary.machine.run .new cs = some e' →
      sceneMachine.run none cs = some none → routingMachine.run none cs = some none →
      cs.filterMap polled? = [] → cs.filterMap pushed? = [] →
      cs.foldl Confinement.after .free = Confinement.free →
      Traced e' none s.sender (s.calls ++ cs) :=
    fun hlibrary hscenes hrouting hpolled hpushed hmouse =>
      h.append_other hlibrary hscenes hrouting hpolled hpushed (by rw [hfree]; exact hmouse) rfl
  cases window with
  | false => exact .inr ⟨_, rfl, .inr ⟨rfl, hs⟩, happend rfl rfl rfl rfl rfl rfl⟩
  | true =>
    cases renderer with
    | false => exact .inr ⟨_, rfl, .inr ⟨rfl, hs⟩, happend rfl rfl rfl rfl rfl rfl⟩
    | true => exact .inl ⟨_, rfl, rfl, hterminated, happend rfl rfl rfl rfl rfl rfl⟩

/-- What `get_window` leaves in any state. -/
theorem Invariant.getWindow (h : Invariant s) (hterminated : s.terminated = false)
    (answers : InitAnswers) : Performed (s.getWindow answers) := by
  rcases h with ⟨scene, h⟩ | h
  · exact Showing.performed ⟨s, getWindow_of_showing h.singleton answers, h⟩
  · have hnone : s.singleton = none := h.singleton.resolve_right (by simp [hterminated])
    rw [Gui.getWindow, hnone]
    rcases init_spec (s := { s with singleton := some newWindow }) rfl hterminated h.traced
      answers with hok | ⟨s', herror, hgone⟩
    · exact Showing.performed hok
    · show Performed ({ s with singleton := some newWindow }.init newWindow answers)
      rw [herror]
      exact hgone

theorem Invariant.setWindowScene (h : Invariant s) (hterminated : s.terminated = false)
    (answers : InitAnswers) (size : Int32 × Int32) (scene' : Option Scene) :
    Performed (s.setWindowScene answers size scene') := by
  rcases h with ⟨scene, h⟩ | h
  · exact Showing.performed (h.setWindowScene answers size scene')
  · have hnone : s.singleton = none := h.singleton.resolve_right (by simp [hterminated])
    rw [Gui.setWindowScene, hnone]
    simp only
    rcases init_spec (s := { s with singleton := some newWindow }) rfl hterminated h.traced
      answers with ⟨t, ht, hshowing⟩ | ⟨s', herror, hgone⟩
    · rw [ht]
      exact Showing.performed (hshowing.setScene answers size scene')
    · rw [herror]
      exact hgone

/-- The scene is unmounted, and the rest is given back in the opposite order. -/
theorem Invariant.deinitWindow (h : Invariant s) (hterminated : s.terminated = false)
    (answers : InitAnswers) : ∃ s', s.deinitWindow answers = .ok s' ∧ Gone s' := by
  rcases h with ⟨scene, h⟩ | h
  · obtain ⟨t, ht, hunmounted⟩ := h.unmount answers
    rw [Gui.deinitWindow, h.singleton]
    simp only [deinit, showing, if_pos, ht]
    refine ⟨_, rfl, .inl rfl, ?_⟩
    exact hunmounted.traced.append_other rfl rfl rfl rfl rfl rfl rfl
  · have hnone : s.singleton = none := h.singleton.resolve_right (by simp [hterminated])
    rw [Gui.deinitWindow, hnone]
    exact ⟨s, rfl, h⟩

theorem Invariant.windowFrame (h : Invariant s) (hterminated : s.terminated = false)
    (answers : InitAnswers) (input : FrameInput) :
    Performed ((s.windowFrame answers input).map Prod.fst) := by
  rcases h with ⟨scene, h⟩ | h
  · obtain ⟨s', scene', hframe, hs'⟩ := h.frame answers input
    rw [Gui.windowFrame, h.singleton]
    simp only [hframe]
    exact .inl ⟨scene', hs'⟩
  · have hnone : s.singleton = none := h.singleton.resolve_right (by simp [hterminated])
    rw [Gui.windowFrame, hnone]
    exact .inr h

/-- Every call of the framework keeps the invariant. -/
theorem Invariant.step {l : Step} (h : Invariant s) (hstep : step s l = some s') :
    Invariant s' := by
  obtain ⟨hrunning, hstep⟩ := Option.ite_none_left_eq_some.1 hstep
  have hterminated : s.terminated = false := by simpa using hrunning
  have hperformed : Performed (s.perform l) := by
    cases l with
    | initWindow answers => exact h.getWindow hterminated answers
    | deinitWindow answers =>
      obtain ⟨t, ht, hgone⟩ := h.deinitWindow hterminated answers
      rw [perform, ht]
      exact .inr hgone
    | setWindowScene scene answers size => exact h.setWindowScene hterminated answers size scene
    | getWindow answers => exact h.getWindow hterminated answers
    | windowFrame answers input => exact h.windowFrame hterminated answers input
  cases hr : s.perform l with
  | ok t =>
    rw [hr] at hstep hperformed
    exact Option.some.inj hstep ▸ hperformed
  | error t =>
    rw [hr] at hstep hperformed
    exact Option.some.inj hstep ▸ .inr hperformed

theorem Invariant.run {ls : List Step} (h : machine.run start ls = some s) : Invariant s :=
  Machine.run_invariant (M := machine) (fun _ _ _ hI hstep => hI.step hstep)
    (.inr ⟨.inl rfl, .start⟩) h

/-- Whether there is a window decides what is live. -/
theorem Showing.initialized_eq (h : Showing inFrame scene mounted s) : s.initialized = true := by
  rw [initialized, h.singleton]
  rfl

theorem Gone.initialized_eq (h : Gone s) : s.initialized = false := by
  rcases h.singleton with hnone | ⟨-, hnew⟩
  · rw [initialized, hnone]
    rfl
  · rw [initialized, hnew]
    rfl

theorem Gone.scene_eq (h : Gone s) : s.scene = none := by
  rcases h.singleton with hnone | ⟨-, hnew⟩
  · rw [Gui.scene, hnone]
    rfl
  · rw [Gui.scene, hnew]
    rfl

/-- Between calls, the scene that is mounted is the one the window shows. -/
theorem Invariant.traced (h : Invariant s) :
    Traced (if s.initialized then .live false else .new) s.scene s.sender s.calls := by
  rcases h with ⟨scene, h⟩ | h
  · rw [h.initialized_eq, if_pos rfl, h.scene_eq]
    exact h.traced
  · rw [h.initialized_eq, if_neg Bool.false_ne_true, h.scene_eq]
    exact h.traced

end Gui

open Gui in
/-- The resources of the window. In every state of every run of the framework, whatever SDL
answers: the calls so far are an allowed use of SDL and Dear ImGui, which leaves everything live
while there is a window that is initialised, and nothing otherwise; so it is after
`deinit_window`, and after an error of `SdlImGuiWindow::init`. -/
theorem window_resources {ls : List Step} {s : Gui} (h : machine.run start ls = some s) :
    GuiLibrary.machine.run .new s.calls =
      some (if s.initialized then .live false else .new) ∧
    (s.terminated = true → s.initialized = false) ∧
    ∀ answers s', step s (.deinitWindow answers) = some s' → s'.initialized = false := by
  have hs := Invariant.run h
  refine ⟨hs.traced.library, fun hterminated => ?_, fun answers s' hstep => ?_⟩
  · rcases hs with ⟨scene, hs⟩ | hs
    · exact absurd (hs.terminated.symm.trans hterminated) (by simp)
    · exact hs.initialized_eq
  · obtain ⟨hrunning, hstep⟩ := Option.ite_none_left_eq_some.1 hstep
    obtain ⟨t, ht, hgone⟩ := hs.deinitWindow (by simpa using hrunning) answers
    rw [perform, ht] at hstep
    exact Option.some.inj hstep ▸ hgone.initialized_eq

open Gui in
/-- The scenes of the window. In every state of every run, also when the tasks of a frame change
the scene: scenes were mounted one at a time and unmounted before the next, and they were only
called while they were mounted; the one that is mounted is the one the window shows, and there is
none without a window; and the sender scene has a flow exactly while it is shown. -/
theorem window_scenes {ls : List Step} {s : Gui} (h : machine.run start ls = some s) :
    sceneMachine.run none s.calls = some s.scene ∧ (s.initialized = false → s.scene = none) ∧
    s.sender.mounted = decide (s.scene = some .sender) := by
  have hs := Invariant.run h
  refine ⟨hs.traced.scenes, fun hinitialized => ?_, hs.traced.mounted⟩
  rcases hs with ⟨scene, hs⟩ | hs
  · exact absurd (hs.initialized_eq.symm.trans hinitialized) (by simp)
  · exact hs.scene_eq

open Gui in
/-- The mouse. In every state of every run: if the window shows the sender scene and the mouse is
contained, what SDL was asked for last is to grab the mouse and to report relative motion; in every
other case it was asked to free the mouse in all three ways, also before the window was
destroyed. -/
theorem window_mouse {ls : List Step} {s : Gui} (h : machine.run start ls = some s) :
    (s.scene = some .sender → s.sender.isMouseContained = true →
      (confinement s.calls).grab = true ∧ (confinement s.calls).relative = true) ∧
    (s.scene ≠ some .sender ∨ s.sender.isMouseContained = false →
      confinement s.calls = .free) := by
  have hs := (Invariant.run h).traced
  have hconfined := hs.confinement
  rw [Confined] at hconfined
  constructor
  · intro hscene hcontained
    have hmounted := hs.mounted.trans (decide_eq_true hscene)
    rwa [if_pos ⟨hmounted, hcontained⟩] at hconfined
  · intro hother
    refine (if_neg ?_).mp hconfined
    rintro ⟨hmounted, hcontained⟩
    rcases hother with hother | hother
    · exact hother (of_decide_eq_true (hs.mounted.symm.trans hmounted))
    · rw [hother] at hcontained
      cases hcontained

open Gui in
/-- The events of the window. In every state of every run: each event that was polled went either to
the flow, converted, or to Dear ImGui, before the next was polled; what went to the flow is what
the sender scene by itself forwards of the events polled, when it is mounted and unmounted in
between; and a frame returns false exactly if one of its events asks to quit or to close the
window, whichever scene gets it. -/
theorem window_events {ls : List Step} {s : Gui} (h : machine.run start ls = some s) :
    routingMachine.run none s.calls = some none ∧
    (∃ ls', SenderScene.machine.run .init ls' = some s.sender ∧
      ls'.filterMap event? = (s.calls.filterMap polled?).map PolledEvent.raw ∧
      s.calls.filterMap pushed? = s.sender.forwarded) ∧
    ∀ answers input s' running, s.windowFrame answers input = .ok (s', running) →
      s.initialized = true → (running = false ↔
        ∃ event ∈ input.events, event = .quit ∨ event = .windowCloseRequested true) := by
  have hs := Invariant.run h
  obtain ⟨ls', hls', hevents⟩ := hs.traced.refines
  refine ⟨hs.traced.routing, ⟨ls', hls', hevents, hs.traced.pushed⟩, ?_⟩
  intro answers input s' running hframe hinitialized
  rcases hs with ⟨scene, hs⟩ | hs
  · obtain ⟨t, scene', ht, -⟩ := hs.frame answers input
    rw [windowFrame, hs.singleton] at hframe
    obtain ⟨-, rfl⟩ := Prod.mk.inj (Except.ok.inj (ht.symm.trans hframe))
    rw [Bool.not_eq_false', List.any_eq_true]
    exact exists_congr fun event => and_congr_right fun _ => hs.stopsRunning_iff event
  · exact absurd (hs.initialized_eq.symm.trans hinitialized) (by simp)

namespace Gui

/-- SDL gives what it is asked for. -/
def sdlWorks : InitAnswers := ⟨true, true⟩

/-- The window shows the home scene for a frame, in which a task changes to the sender scene. A key
is pressed there and the close button clicked, and the mouse is released and contained again. -/
def sending : List Step :=
  [.initWindow sdlWorks,
    .setWindowScene (some .home) sdlWorks (960, 600),
    .windowFrame sdlWorks ⟨[.input (.keyDown 4)], none, [(.setSenderScene, 960, 600)]⟩,
    .windowFrame sdlWorks
      ⟨[.input (.keyDown 5), .windowCloseRequested true, .input (.keyDown scancodeLAlt),
        .input (.keyDown scancodeLCtrl), .input (.keyDown scancodeEscape), .input (.keyDown 6)],
        some (960, 600), []⟩]

end Gui

open Gui in
/-- This run leaves a window, which the next call gives back. -/
theorem window_resources_sending : ∃ s s', machine.run start sending = some s ∧
    step s (.deinitWindow sdlWorks) = some s' ∧ s.initialized = true ∧ s'.initialized = false := by
  have hrun : ∃ s ∈ machine.run start sending, (step s (.deinitWindow sdlWorks)).isSome ∧
      s.initialized = true := by
    decide +kernel
  obtain ⟨s, hs, hsome, hinitialized⟩ := hrun
  obtain ⟨s', hstep⟩ := Option.isSome_iff_exists.1 hsome
  exact ⟨s, s', hs, hstep, hinitialized, (window_resources hs).2.2 sdlWorks s' hstep⟩

open Gui in
/-- In this run the sender scene is mounted in the middle of a frame. -/
theorem window_scenes_sending : ∃ s, machine.run start sending = some s ∧
    s.scene = some .sender ∧ sceneMachine.run none s.calls = some s.scene := by
  have hrun : ∃ s ∈ machine.run start sending, s.scene = some .sender := by
    decide +kernel
  obtain ⟨s, hs, hscene⟩ := hrun
  exact ⟨s, hs, hscene, (window_scenes hs).1⟩

open Gui in
/-- After this run the mouse is contained again. -/
theorem window_mouse_sending : ∃ s, machine.run start sending = some s ∧
    (confinement s.calls).grab = true ∧ (confinement s.calls).relative = true := by
  have hrun : ∃ s ∈ machine.run start sending, s.scene = some .sender ∧
      s.sender.isMouseContained = true := by
    decide +kernel
  obtain ⟨s, hs, hscene, hcontained⟩ := hrun
  exact ⟨s, hs, (window_mouse hs).1 hscene hcontained⟩

open Gui in
/-- In this run the flow gets four events of the sender scene, the click on the close button among
them. -/
theorem window_events_sending : ∃ s ls', machine.run start sending = some s ∧
    SenderScene.machine.run .init ls' = some s.sender ∧ s.sender.received =
      [.keyDown 5, .other 0x210, .keyDown scancodeLAlt, .keyDown scancodeLCtrl] := by
  have hrun : ∃ s ∈ machine.run start sending, s.sender.received =
      [.keyDown 5, .other 0x210, .keyDown scancodeLAlt, .keyDown scancodeLCtrl] := by
    decide +kernel
  obtain ⟨s, hs, hreceived⟩ := hrun
  obtain ⟨-, ⟨ls', hls', -⟩, -⟩ := window_events hs
  exact ⟨s, ls', hs, hls', hreceived⟩

end Keyleport
