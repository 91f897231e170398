import Keyleport.Keyboard.InputEvent

/-!
# Events of the window system

`keyboard/input_event_sdl.cpp`: the SDL events the program looks at, and the input event each
is converted to. Events that are not converted give `InputEvent{}`, which reads as a press of
key 0.
-/

namespace Keyleport

/-- `SDL_Event`, with the fields the program reads. -/
inductive SdlEvent where
  | keyDown (scancode : UInt32)
  | keyUp (scancode : UInt32)
  | mouseMotion (xrel yrel : ℚ)
  | mouseWheel (x y : ℚ)
  | mouseButtonDown (button : UInt8)
  | mouseButtonUp (button : UInt8)
  | windowFocusLost
  /-- Any other event, by its type. -/
  | other (type : UInt32)
deriving DecidableEq, Repr

namespace InputEvent

/-- `make_key_event`. -/
def makeKeyEvent (scancode : UInt32) (action : InputEventAction) : InputEvent :=
  ⟨.key, action, scancode.toUInt16, 0, 0⟩

/-- `make_mouse_move`. -/
def makeMouseMove (dx dy : Int32) : InputEvent := ⟨.mouse, .move, 0, dx, dy⟩

/-- `make_scroll`. -/
def makeScroll (dx dy : Int32) : InputEvent := ⟨.mouse, .scroll, 0, dx, dy⟩

/-- `make_mouse_button`. -/
def makeMouseButton (button : UInt16) (down : Bool) : InputEvent :=
  ⟨.mouse, if down then .down else .up, button, 0, 0⟩

/-- `static_cast<int>` of the amount of an event, on x86-64. -/
def floatToInt (x : ℚ) : Int32 := FloatCast.x86_64.toInt32 x

/-- `InputEvent::fromSDL`. -/
def fromSDL : SdlEvent → InputEvent
  | .keyDown scancode => makeKeyEvent scancode .down
  | .keyUp scancode => makeKeyEvent scancode .up
  | .mouseMotion xrel yrel => makeMouseMove (floatToInt xrel) (floatToInt yrel)
  | .mouseWheel x y => makeScroll (floatToInt x) (floatToInt y)
  | .mouseButtonDown button => makeMouseButton button.toUInt16 true
  | .mouseButtonUp button => makeMouseButton button.toUInt16 false
  | .windowFocusLost => default
  | .other _ => default

end InputEvent

end Keyleport
