import Keyleport.Keyboard.Sdl
import Keyleport.Lib.Machine
import Mathlib.Data.Finset.Basic

/-!
# The sender scene

The events of a window that shows the sender scene: the event loop of `SdlImGuiWindow::frame`,
the set of pressed keys of `UIInputManager`, and `handleInput`, `didMount`, `willUnmount` and
the Continue button of `SenderScene`. While the mouse is contained every event is converted and
forwarded to the flow; completing Ctrl + Alt + Esc releases the mouse first.
-/

namespace Keyleport

/-- `SDL_SCANCODE_LALT`. -/
def scancodeLAlt : UInt32 := 226

/-- `SDL_SCANCODE_LCTRL`. -/
def scancodeLCtrl : UInt32 := 224

/-- `SDL_SCANCODE_ESCAPE`. -/
def scancodeEscape : UInt32 := 41

/-- The window and the sender scene, with what reached the flow. -/
structure SenderScene where
  /-- `UIInputManager::pressed_`. -/
  pressed : Finset UInt32
  /-- Whether the window shows the scene, which then has a flow. -/
  mounted : Bool
  /-- `is_mouse_contained_`. -/
  isMouseContained : Bool
  /-- The events the scene converted, oldest first. -/
  received : List SdlEvent
  /-- The events given to `SenderFlow::push_event`, oldest first. -/
  forwarded : List InputEvent
deriving DecidableEq

namespace SenderScene

/-- Before the scene is mounted. -/
def init : SenderScene := ⟨∅, false, true, [], []⟩

/-- The update of the pressed keys in `SdlImGuiWindow::frame`. -/
def updatePressed (pressed : Finset UInt32) : SdlEvent → Finset UInt32
  | .keyDown scancode => insert scancode pressed
  | .keyUp scancode => pressed.erase scancode
  | .windowFocusLost => ∅
  | _ => pressed

/-- The test for the release of the mouse in `handleInput`. -/
def isReleaseHotkey (pressed : Finset UInt32) : SdlEvent → Bool
  | .keyDown _ => scancodeLAlt ∈ pressed ∧ scancodeLCtrl ∈ pressed ∧ scancodeEscape ∈ pressed
  | _ => false

/-- `handleInput`. -/
def handleInput (s : SenderScene) (event : SdlEvent) : SenderScene :=
  -- the hotkey is tested first, so the event that completes it is not forwarded
  let s := if isReleaseHotkey s.pressed event then { s with isMouseContained := false } else s
  if s.isMouseContained then
    { s with
      received := s.received ++ [event]
      forwarded := s.forwarded ++ [InputEvent.fromSDL event] }
  else s

/-- One turn of the event loop of `SdlImGuiWindow::frame`. -/
def pollEvent (s : SenderScene) (event : SdlEvent) : SenderScene :=
  -- the scene sees the keys as they are after the event
  let s := { s with pressed := updatePressed s.pressed event }
  if s.mounted then s.handleInput event else s

/-- The steps of the window. -/
inductive Step where
  | event (e : SdlEvent)
  /-- A click on the Continue button, which is shown while the mouse is not contained. -/
  | continueClick
  /-- `didMount`. -/
  | mount
  /-- `willUnmount`. -/
  | unmount
deriving DecidableEq

/-- One step. -/
def step (s : SenderScene) : Step → Option SenderScene
  | .event e => some (s.pollEvent e)
  | .continueClick =>
      if s.mounted ∧ s.isMouseContained = false then some { s with isMouseContained := true }
      else none
  | .mount => if s.mounted then none else some { s with mounted := true, isMouseContained := true }
  | .unmount =>
      if s.mounted then some { s with mounted := false, isMouseContained := false } else none

/-- The window as a machine. -/
def machine : Machine SenderScene Step := ⟨step⟩

/-- The mouse is not contained, or the scene is not shown: nothing is forwarded. -/
def Released (s : SenderScene) : Prop := s.isMouseContained = false ∨ s.mounted = false

instance (s : SenderScene) : Decidable s.Released := inferInstanceAs (Decidable (_ ∨ _))

/-- A step ends the forwarding: the hotkey is completed, or the scene unmounted, while the mouse
is contained. -/
def endsForwarding (s : SenderScene) : Step → Bool
  | .event e => !s.Released && isReleaseHotkey (updatePressed s.pressed e) e
  | .unmount => !s.Released
  | _ => false

/-! ## What a step does -/

variable {s s' : SenderScene}

theorem not_released_iff : ¬ s.Released ↔ s.isMouseContained = true ∧ s.mounted = true := by
  simp [Released]

/-- While released, an event only updates the pressed keys. -/
theorem pollEvent_of_released (h : s.Released) (e : SdlEvent) :
    s.pollEvent e = { s with pressed := updatePressed s.pressed e } := by
  obtain ⟨pressed, mounted, contained, received, forwarded⟩ := s
  rcases h with h | h
  · obtain rfl : contained = false := h
    cases mounted <;> simp [pollEvent, handleInput]
  · obtain rfl : mounted = false := h
    rfl

/-- The hotkey releases the mouse, and is not forwarded. -/
theorem pollEvent_of_hotkey (h : ¬ s.Released) {e : SdlEvent}
    (hkey : isReleaseHotkey (updatePressed s.pressed e) e = true) :
    s.pollEvent e =
      { s with pressed := updatePressed s.pressed e, isMouseContained := false } := by
  obtain ⟨-, hmounted⟩ := not_released_iff.1 h
  simp [pollEvent, handleInput, hmounted, hkey]

/-- Any other event is forwarded. -/
theorem pollEvent_of_forwarding (h : ¬ s.Released) {e : SdlEvent}
    (hkey : isReleaseHotkey (updatePressed s.pressed e) e = false) :
    s.pollEvent e = { s with
      pressed := updatePressed s.pressed e
      received := s.received ++ [e]
      forwarded := s.forwarded ++ [InputEvent.fromSDL e] } := by
  obtain ⟨hcontained, hmounted⟩ := not_released_iff.1 h
  simp [pollEvent, handleInput, hmounted, hcontained, hkey]

/-- A step forwards one event, or forwards nothing; forwarding only stops at its end. -/
theorem step_cases {l : Step} (h : step s l = some s') :
    (∃ e, ¬ s'.Released ∧ s.endsForwarding l = false ∧ s'.received = s.received ++ [e] ∧
      s'.forwarded = s.forwarded ++ [InputEvent.fromSDL e]) ∨
    (s'.received = s.received ∧ s'.forwarded = s.forwarded ∧
      (s'.Released → s.Released ∨ s.endsForwarding l = true) ∧
      (s.endsForwarding l = true → s'.Released)) := by
  cases l with
  | event e =>
    obtain rfl := Option.some.inj h
    by_cases hs : s.Released
    · refine Or.inr ⟨?_, ?_, fun _ => Or.inl hs, fun hend => ?_⟩
      · rw [pollEvent_of_released hs]
      · rw [pollEvent_of_released hs]
      · simp [endsForwarding, hs] at hend
    · cases hkey : isReleaseHotkey (updatePressed s.pressed e) e with
      | true =>
        have hend : s.endsForwarding (.event e) = true := by simp [endsForwarding, hs, hkey]
        rw [pollEvent_of_hotkey hs hkey]
        exact Or.inr ⟨rfl, rfl, fun _ => Or.inr hend, fun _ => Or.inl rfl⟩
      | false =>
        rw [pollEvent_of_forwarding hs hkey]
        exact Or.inl ⟨e, hs, by simp [endsForwarding, hkey], rfl, rfl⟩
  | continueClick =>
    obtain ⟨hguard, h⟩ := Option.ite_none_right_eq_some.1 h
    obtain rfl := Option.some.inj h
    exact Or.inr ⟨rfl, rfl, fun _ => Or.inl (Or.inl hguard.2), nofun⟩
  | mount =>
    obtain ⟨hmounted, h⟩ := Option.ite_none_left_eq_some.1 h
    obtain rfl := Option.some.inj h
    exact Or.inr ⟨rfl, rfl, fun _ => Or.inl (Or.inr (Bool.eq_false_iff.2 hmounted)), nofun⟩
  | unmount =>
    obtain ⟨hmounted, h⟩ := Option.ite_none_right_eq_some.1 h
    obtain rfl := Option.some.inj h
    refine Or.inr ⟨rfl, rfl, fun _ => ?_, fun _ => Or.inr rfl⟩
    by_cases hs : s.Released
    · exact Or.inl hs
    · exact Or.inr (by simp [endsForwarding, hs])

/-- What is forwarded is what was received, converted. -/
theorem forwarded_eq_of_run {ls : List Step} (h : machine.run init ls = some s) :
    s.forwarded = s.received.map InputEvent.fromSDL := by
  refine Machine.run_invariant (I := fun s => s.forwarded = s.received.map InputEvent.fromSDL)
    (fun t l t' hI hstep => ?_) rfl h
  rcases step_cases hstep with ⟨e, -, -, hreceived, hforwarded⟩ | ⟨hreceived, hforwarded, -⟩
  · rw [hreceived, hforwarded, List.map_append, hI]
    rfl
  · rw [hreceived, hforwarded]
    exact hI

end SenderScene

end Keyleport
