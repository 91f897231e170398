import Keyleport.Sender.Conservation
import Keyleport.Sender.Scene

/-!
# What the sender scene sends reliably

The sender scene with the flow that it started. Every event that arrives while the mouse is
contained is converted and pushed, those included whose type `fromSDL` has no case for: they
become `InputEvent{}`, which reads as a press of key 0 and is sent like one.

* `SenderInput.Coupled`: the flow was pushed what the scene received, converted.
* `reliable_exact_iff`: the keys and buttons are all that is sent reliably if and only if every
  event that arrives while the mouse is contained is one that is converted.
* `unhandled_sent_as_key`: an event of another type is sent as a press of key 0.
-/

namespace Keyleport

namespace SdlEvent

/-- `SDL_EVENT_KEY_DOWN`, `SDL_EVENT_KEY_UP`, `SDL_EVENT_MOUSE_BUTTON_DOWN` or
`SDL_EVENT_MOUSE_BUTTON_UP`. -/
def isKeyOrButton : SdlEvent → Bool
  | .keyDown _ => true
  | .keyUp _ => true
  | .mouseButtonDown _ => true
  | .mouseButtonUp _ => true
  | _ => false

/-- An event of a type that `fromSDL` has a case for. -/
def isConverted : SdlEvent → Bool
  | .windowFocusLost => false
  | .other _ => false
  | _ => true

/-- Motion is converted to motion, and nothing else is. -/
theorem isMotion_fromSDL (e : SdlEvent) :
    SenderFlow.isMotion (InputEvent.fromSDL e) = (e.isConverted && !e.isKeyOrButton) := by
  cases e <;> rfl

/-- Of a list of events, those that are no motion are the keys and buttons if and only if all of
the list are converted. -/
theorem filter_not_motion_iff (events : List SdlEvent) :
    ((events.filter fun e => !SenderFlow.isMotion (InputEvent.fromSDL e)).map
        InputEvent.fromSDL =
      (events.filter isKeyOrButton).map InputEvent.fromSDL) ↔
    ∀ e ∈ events, e.isConverted = true := by
  -- the keys and buttons are a part of the events that are no motion
  have hpart : events.filter isKeyOrButton =
      (events.filter fun e => !SenderFlow.isMotion (InputEvent.fromSDL e)).filter
        isKeyOrButton := by
    rw [List.filter_filter]
    refine List.filter_congr fun e _ => ?_
    rw [isMotion_fromSDL]
    cases e.isKeyOrButton <;> simp
  constructor
  · intro heq e he
    have hlength := congrArg List.length heq
    rw [List.length_map, List.length_map, hpart] at hlength
    have hall := List.length_filter_eq_length_iff.1 hlength.symm
    cases hkey : e.isKeyOrButton with
    | true => cases e <;> first | rfl | cases hkey
    | false =>
      by_contra hconverted
      -- an event that is not converted is no motion, and no key or button
      have hmotion : (!SenderFlow.isMotion (InputEvent.fromSDL e)) = true := by
        rw [isMotion_fromSDL, Bool.eq_false_iff.2 hconverted]
        rfl
      have hmem : e ∈ events.filter fun e => !SenderFlow.isMotion (InputEvent.fromSDL e) :=
        List.mem_filter.2 ⟨he, hmotion⟩
      rw [hall e hmem] at hkey
      cases hkey
  · intro hconverted
    rw [List.filter_congr fun e he => ?_]
    rw [isMotion_fromSDL, hconverted e he]
    simp

end SdlEvent

namespace SenderScene

/-- An event is received if it arrives while the mouse is contained and does not release it. -/
theorem pollEvent_cases (s : SenderScene) (e : SdlEvent) :
    (¬ s.Released ∧ isReleaseHotkey (updatePressed s.pressed e) e = false ∧
      (s.pollEvent e).received = s.received ++ [e] ∧
      (s.pollEvent e).forwarded = s.forwarded ++ [InputEvent.fromSDL e]) ∨
    ((s.Released ∨ isReleaseHotkey (updatePressed s.pressed e) e = true) ∧
      (s.pollEvent e).received = s.received ∧ (s.pollEvent e).forwarded = s.forwarded) := by
  by_cases hs : s.Released
  · rw [pollEvent_of_released hs]
    exact Or.inr ⟨Or.inl hs, rfl, rfl⟩
  · cases hkey : isReleaseHotkey (updatePressed s.pressed e) e with
    | true =>
      rw [pollEvent_of_hotkey hs hkey]
      exact Or.inr ⟨Or.inr rfl, rfl, rfl⟩
    | false =>
      rw [pollEvent_of_forwarding hs hkey]
      exact Or.inl ⟨hs, rfl, rfl, rfl⟩

/-- Events do not unmount the scene. -/
theorem pollEvent_mounted (s : SenderScene) (e : SdlEvent) :
    (s.pollEvent e).mounted = s.mounted := by
  simp only [pollEvent, handleInput]
  split
  · split <;> split <;> rfl
  · rfl

end SenderScene

/-- The scene that the window shows, and its `flow_`. -/
structure SenderInput where
  scene : SenderScene
  flow : SenderFlow
deriving DecidableEq

namespace SenderInput

/-- After `didMount`, with the keys that are pressed and a communication service. -/
def mounted (pressed : Finset UInt32) : SenderInput :=
  ⟨{ SenderScene.init with pressed := pressed, mounted := true, isMouseContained := true },
    (SenderFlow.init.start true).2⟩

/-- One turn of the event loop: what the scene forwards is pushed to its flow. -/
def pollEvent (s : SenderInput) (e : SdlEvent) : Option SenderInput := do
  let scene := s.scene.pollEvent e
  let forwarded := scene.forwarded.drop s.scene.forwarded.length
  let flow ← forwarded.foldlM SenderFlow.pushEvent s.flow
  return ⟨scene, flow⟩

/-- The steps while the scene is shown. -/
inductive Step where
  | event (e : SdlEvent)
  | continueClick
  | moveLoop
  | scrollLoop
deriving DecidableEq

/-- One step. -/
def step (s : SenderInput) : Step → Option SenderInput
  | .event e => s.pollEvent e
  | .continueClick => do return { s with scene := ← s.scene.step .continueClick }
  | .moveLoop => do return { s with flow := ← s.flow.moveLoop }
  | .scrollLoop => do return { s with flow := ← s.flow.scrollLoop }

/-- The shown scene as a machine. -/
def machine : Machine SenderInput Step := ⟨step⟩

/-! ## The two parts -/

variable {s s' : SenderInput} {pressed : Finset UInt32} {ls : List Step}

/-- The scene is shown, and its flow runs and was pushed what the scene received, converted. -/
structure Coupled (s : SenderInput) : Prop where
  shown : s.scene.mounted = true
  running : s.flow.running = true
  run : ∃ ls, SenderFlow.machine.run SenderFlow.init ls = some s.flow
  stopping : s.flow.stopping = false
  pushed : s.flow.pushed = s.scene.received.map InputEvent.fromSDL

theorem Coupled.mount (pressed : Finset UInt32) : Coupled (mounted pressed) :=
  ⟨rfl, rfl, ⟨[.start true], rfl⟩, rfl, rfl⟩

/-- A step of the flow is one more step of its run. -/
theorem run_concat {flow flow' : SenderFlow} {l : SenderFlow.Step}
    (h : ∃ ls, SenderFlow.machine.run SenderFlow.init ls = some flow)
    (hstep : SenderFlow.step flow l = some flow') :
    ∃ ls, SenderFlow.machine.run SenderFlow.init ls = some flow' := by
  obtain ⟨ls, hls⟩ := h
  exact ⟨ls ++ [l], Machine.run_concat_eq_some.2 ⟨flow, hls, hstep⟩⟩

/-- An event that is received is pushed; any other leaves the flow as it is. -/
theorem Coupled.pollEvent {e : SdlEvent} (hs : Coupled s) (h : s.pollEvent e = some s') :
    Coupled s' ∧
      ((¬ s.scene.Released ∧ s'.scene.received = s.scene.received ++ [e]) ∨
        ((s.scene.Released ∨ e.isConverted = true) ∧
          s'.scene.received = s.scene.received)) := by
  obtain ⟨flow, hflow, h⟩ := Option.bind_eq_some_iff.1 h
  obtain rfl := Option.some.inj h
  have hmounted := (s.scene.pollEvent_mounted e).trans hs.shown
  rcases s.scene.pollEvent_cases e with ⟨hreleased, -, hreceived, hforwarded⟩ |
    ⟨hnone, hreceived, hforwarded⟩
  · have hpush : s.flow.pushEvent (InputEvent.fromSDL e) = some flow := by
      simpa [hforwarded] using hflow
    have hstep : SenderFlow.step s.flow (.push (InputEvent.fromSDL e)) = some flow := by
      rw [SenderFlow.step, hs.stopping]
      exact hpush
    obtain ⟨hpushed, hrunning, hstopping⟩ := SenderFlow.pushEvent_running hs.running hpush
    refine ⟨⟨hmounted, hrunning, run_concat hs.run hstep, hstopping.trans hs.stopping, ?_⟩,
      Or.inl ⟨hreleased, hreceived⟩⟩
    rw [hpushed, hreceived, List.map_append, hs.pushed]
    rfl
  · rw [hforwarded, List.drop_length] at hflow
    obtain rfl := Option.some.inj hflow
    refine ⟨⟨hmounted, hs.running, hs.run, hs.stopping, hs.pushed.trans (by rw [hreceived])⟩,
      Or.inr ⟨hnone.imp_right fun hkey => ?_, hreceived⟩⟩
    -- only a key completes the hotkey
    cases e <;> first | rfl | cases hkey

private theorem Coupled.loop {flow : SenderFlow} {l : SenderFlow.Step} (hs : Coupled s)
    (hl : l = .moveLoop ∨ l = .scrollLoop) (h : SenderFlow.step s.flow l = some flow) :
    Coupled { s with flow := flow } := by
  have hloop : s.flow.moveLoop = some flow ∨ s.flow.scrollLoop = some flow := by
    rcases hl with rfl | rfl
    · exact Or.inl h
    · exact Or.inr h
  obtain ⟨hpushed, hrunning, hstopping⟩ := SenderFlow.loop_pushed hloop
  exact ⟨hs.shown, hrunning.trans hs.running, run_concat hs.run h, hstopping.trans hs.stopping,
    hpushed.trans hs.pushed⟩

/-- A step receives the event that arrives, if the mouse is contained, and nothing else. -/
theorem Coupled.step {l : Step} (hs : Coupled s) (h : step s l = some s') :
    Coupled s' ∧
      ((∃ e, l = .event e ∧ s.scene.isMouseContained = true ∧
          s'.scene.received = s.scene.received ++ [e]) ∨
        ((∀ e, l = .event e → s.scene.isMouseContained = false ∨ e.isConverted = true) ∧
          s'.scene.received = s.scene.received)) := by
  cases l with
  | event e =>
    obtain ⟨hs', hreceived | ⟨hnone, hreceived⟩⟩ := hs.pollEvent h
    · exact ⟨hs', Or.inl ⟨e, rfl, (SenderScene.not_released_iff.1 hreceived.1).1, hreceived.2⟩⟩
    · -- the scene is shown, so a scene that does not forward has released the mouse
      refine ⟨hs', Or.inr ⟨fun e' he' => ?_, hreceived⟩⟩
      obtain rfl := Step.event.inj he'
      refine hnone.imp_left fun hreleased => hreleased.resolve_right fun hmounted => ?_
      rw [hs.shown] at hmounted
      cases hmounted
  | continueClick =>
    obtain ⟨scene, hscene, h⟩ := Option.bind_eq_some_iff.1 h
    obtain rfl := Option.some.inj h
    obtain ⟨-, hscene⟩ := Option.ite_none_right_eq_some.1 hscene
    obtain rfl := Option.some.inj hscene
    exact ⟨⟨hs.shown, hs.running, hs.run, hs.stopping, hs.pushed⟩,
      Or.inr ⟨fun _ heq => Step.noConfusion heq, rfl⟩⟩
  | moveLoop =>
    obtain ⟨flow, hflow, h⟩ := Option.bind_eq_some_iff.1 h
    obtain rfl := Option.some.inj h
    exact ⟨hs.loop (Or.inl rfl) hflow, Or.inr ⟨fun _ heq => Step.noConfusion heq, rfl⟩⟩
  | scrollLoop =>
    obtain ⟨flow, hflow, h⟩ := Option.bind_eq_some_iff.1 h
    obtain rfl := Option.some.inj h
    exact ⟨hs.loop (Or.inr rfl) hflow, Or.inr ⟨fun _ heq => Step.noConfusion heq, rfl⟩⟩

theorem Coupled.of_run (h : machine.run (mounted pressed) ls = some s) : Coupled s :=
  Machine.run_invariant (I := Coupled) (fun _ _ _ hs hstep => (hs.step hstep).1)
    (.mount pressed) h

/-- What is sent reliably is what was received and is no motion, converted. -/
theorem reliable_of_run (h : machine.run (mounted pressed) ls = some s) : s.flow.reliable =
    (s.scene.received.filter fun e => !SenderFlow.isMotion (InputEvent.fromSDL e)).map
      InputEvent.fromSDL := by
  have hs : Coupled s := .of_run h
  obtain ⟨ls', hrun⟩ := hs.run
  rw [SenderFlow.reliable_eq_of_run hrun, hs.pushed, List.filter_map]
  rfl

/-- All events received are converted if and only if all that arrive while the mouse is contained
are. -/
theorem received_converted_iff (h : machine.run (mounted pressed) ls = some s) :
    (∀ e ∈ s.scene.received, e.isConverted = true) ↔
    ∀ ls' l t, ls' ++ [l] <+: ls → machine.run (mounted pressed) ls' = some t →
      ∀ e, l = .event e → t.scene.isMouseContained = true → e.isConverted = true := by
  refine Machine.run_induction (M := machine) (motive := fun ls s =>
    (∀ e ∈ s.scene.received, e.isConverted = true) ↔
    ∀ ls' l t, ls' ++ [l] <+: ls → machine.run (mounted pressed) ls' = some t →
      ∀ e, l = .event e → t.scene.isMouseContained = true → e.isConverted = true) ?_ ?_ h
  · refine ⟨fun _ ls' l t hnil => ?_, fun _ e he => by cases he⟩
    simp at hnil
  · intro ls t l t' ht ih hstep
    obtain ⟨-, hcases⟩ := (Coupled.of_run ht).step hstep
    rw [Machine.forall_steps_concat ht, ← ih]
    rcases hcases with ⟨e, rfl, hcontained, hreceived⟩ | ⟨hnone, hreceived⟩
    · -- one more event is received, and one more arrived
      rw [hreceived, List.forall_mem_append, List.forall_mem_singleton, and_comm]
      refine and_congr_left' ⟨fun he e' he' _ => ?_, fun he => he e rfl hcontained⟩
      obtain rfl := Step.event.inj he'
      exact he
    · -- what arrived now is not asked about
      rw [hreceived]
      refine (and_iff_right fun e he hcontained => ?_).symm
      refine (hnone e he).resolve_left fun hfalse => ?_
      rw [hcontained] at hfalse
      cases hfalse

end SenderInput

open SenderInput in
/-- When only keys and buttons are sent reliably. In every run of the shown scene, whatever keys
are pressed at its start: the events handed to `send_package_reliable` are, in order, the
conversions of the key and button events that arrived while the mouse was contained and remained
so, if and only if no event of another type than `fromSDL` converts arrived while the mouse was
contained. -/
theorem reliable_exact_iff {pressed : Finset UInt32} {ls : List Step} {s : SenderInput}
    (h : machine.run (mounted pressed) ls = some s) :
    s.flow.reliable =
        (s.scene.received.filter SdlEvent.isKeyOrButton).map InputEvent.fromSDL ↔
    ∀ ls' e t, ls' ++ [.event e] <+: ls → machine.run (mounted pressed) ls' = some t →
      t.scene.isMouseContained = true → e.isConverted = true := by
  rw [reliable_of_run h, SdlEvent.filter_not_motion_iff, received_converted_iff h]
  constructor
  · intro hall ls' e t hpre ht
    exact hall ls' _ t hpre ht e rfl
  · rintro hall ls' _ t hpre ht e rfl
    exact hall ls' e t hpre ht

open SenderInput in
/-- A key, a motion and a button are sent; then the hotkey releases the mouse, and the event that
is not converted arrives after that. -/
theorem reliable_exact_iff_released : ∃ s,
    machine.run (mounted {scancodeLAlt, scancodeLCtrl}) [.event (.keyDown 4),
      .event (.mouseMotion 1 0), .event (.mouseButtonDown 1), .event (.keyDown scancodeEscape),
      .event .windowFocusLost] = some s ∧
    s.flow.reliable = [⟨.key, .down, 4, 0, 0⟩, ⟨.mouse, .down, 1, 0, 0⟩] ∧
    ∀ ls' e t, ls' ++ [.event e] <+: [.event (.keyDown 4), .event (.mouseMotion 1 0),
        .event (.mouseButtonDown 1), .event (.keyDown scancodeEscape),
        .event .windowFocusLost] →
      machine.run (mounted {scancodeLAlt, scancodeLCtrl}) ls' = some t →
      t.scene.isMouseContained = true → e.isConverted = true := by
  have hrun : ∃ s ∈ machine.run (mounted {scancodeLAlt, scancodeLCtrl}) [.event (.keyDown 4),
        .event (.mouseMotion 1 0), .event (.mouseButtonDown 1),
        .event (.keyDown scancodeEscape), .event .windowFocusLost],
      s.flow.reliable =
        (s.scene.received.filter SdlEvent.isKeyOrButton).map InputEvent.fromSDL ∧
      s.flow.reliable = [⟨.key, .down, 4, 0, 0⟩, ⟨.mouse, .down, 1, 0, 0⟩] := by
    decide
  obtain ⟨s, hs, hexact, hsent⟩ := hrun
  exact ⟨s, hs, hsent, (reliable_exact_iff hs).1 hexact⟩

open SenderInput in
/-- An event that is not converted is sent as a press of key 0. -/
theorem unhandled_sent_as_key : ¬ ∀ pressed ls s, machine.run (mounted pressed) ls = some s →
    s.flow.reliable =
      (s.scene.received.filter SdlEvent.isKeyOrButton).map InputEvent.fromSDL := by
  intro hexact
  have hrun : ∃ s ∈ machine.run (mounted ∅) [.event .windowFocusLost], s.flow.reliable ≠
      (s.scene.received.filter SdlEvent.isKeyOrButton).map InputEvent.fromSDL := by
    decide
  obtain ⟨s, hs, hne⟩ := hrun
  exact hne (hexact _ _ s hs)

end Keyleport
