import Keyleport.Keyboard.InputEvent
import Keyleport.Keyboard.Mapping.HidToMac

/-!
# The macOS emitter

`keyboard/macos/emitter.cpp`: the Quartz events that an event is posted as. The position of the
cursor is read from the system at every mouse event; its coordinates are those of `CGFloat`.
-/

namespace Keyleport

/-- `CGPoint`. -/
structure CGPoint where
  x : Float
  y : Float

/-- `CGMouseButton`. -/
inductive CGMouseButton where
  | left
  | right
  | center
deriving DecidableEq, Repr

/-- `CGEventType`, for the mouse. -/
inductive CGEventType where
  | leftMouseDown
  | leftMouseUp
  | rightMouseDown
  | rightMouseUp
  | mouseMoved
  | otherMouseDown
  | otherMouseUp
deriving DecidableEq, Repr

/-- An event made by one of the `CGEventCreate` functions. -/
inductive MacEvent where
  /-- `CGEventCreateMouseEvent`. -/
  | mouse (mouseType : CGEventType) (position : CGPoint) (button : CGMouseButton)
  /-- `CGEventCreateScrollWheelEvent`, in lines. -/
  | scrollWheel (wheelCount : UInt32) (wheel1 wheel2 : Int32)
  /-- `CGEventCreateKeyboardEvent`. -/
  | keyboard (virtualKey : UInt16) (keyDown : Bool)

namespace MacEmitter

/-- Post an event, if it is created. -/
def post (creates : Bool) (ev : MacEvent) : List MacEvent := if creates then [ev] else []

/-- `post_mouse_move_relative`. -/
def postMouseMoveRelative (creates : Bool) (cursor : CGPoint) (dx dy : Int32) : List MacEvent :=
  let position : CGPoint := ⟨cursor.x + Float.ofInt dx.toInt, cursor.y + Float.ofInt dy.toInt⟩
  post creates (.mouse .mouseMoved position .left)

/-- `post_mouse_button`. -/
def postMouseButton (creates : Bool) (cursor : CGPoint) (sdlButton : UInt16) (down : Bool) :
    List MacEvent :=
  let button (btn : CGMouseButton) (type : CGEventType) := post creates (.mouse type cursor btn)
  if sdlButton = 1 then button .left (if down then .leftMouseDown else .leftMouseUp)
  else if sdlButton = 3 then button .right (if down then .rightMouseDown else .rightMouseUp)
  -- the middle button, and every other one
  else button .center (if down then .otherMouseDown else .otherMouseUp)

/-- `post_scroll`. -/
def postScroll (creates : Bool) (dx dy : Int32) : List MacEvent :=
  post creates (.scrollWheel 2 dy dx)

/-- `post_key`. -/
def postKey (creates : Bool) (vk : UInt16) (down : Bool) : List MacEvent :=
  post creates (.keyboard vk down)

/-- `emit`: its result and the events posted, with whether events are created and the position of
the cursor. -/
def emit (creates : Bool) (cursor : CGPoint) (event : InputEvent) : Int32 × List MacEvent :=
  if event.type = .mouse then
    if event.action = .move then (0, postMouseMoveRelative creates cursor event.dx event.dy)
    else if event.action = .scroll then (0, postScroll creates event.dx event.dy)
    else if event.action = .down then (0, postMouseButton creates cursor event.code true)
    else if event.action = .up then (0, postMouseButton creates cursor event.code false)
    else (-1, [])
  else if event.type = .key then
    match hidToMacVk event.code with
    -- unsupported key
    | none => (-2, [])
    | some vk =>
      if event.action = .down then (0, postKey creates vk true)
      else if event.action = .up then (0, postKey creates vk false)
      else (-1, [])
  else (0, [])

end MacEmitter

end Keyleport
