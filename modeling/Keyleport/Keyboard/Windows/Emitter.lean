import Keyleport.Keyboard.InputEvent
import Keyleport.Keyboard.Mapping.HidToWin
import Mathlib.Algebra.Ring.Int.Defs

/-!
# The Windows emitter

`keyboard/windows/emitter.cpp`: the input records that an event is injected as. Records are those
of `SendInput`, with the flags of the Windows SDK. A multiplication that leaves the range of `int`
is undefined behaviour; such an emission has no outcome here.
-/

namespace Keyleport

/-- `INPUT`, with the fields that are set. -/
inductive WindowsInput where
  /-- `INPUT_KEYBOARD`, with `ki.wVk`, `ki.wScan` and `ki.dwFlags`. -/
  | keyboard (wVk wScan : UInt16) (dwFlags : UInt32)
  /-- `INPUT_MOUSE`, with `mi.dx`, `mi.dy`, `mi.mouseData` and `mi.dwFlags`. -/
  | mouse (dx dy : Int32) (mouseData dwFlags : UInt32)
deriving DecidableEq, Repr

/-- `KEYEVENTF_EXTENDEDKEY`. -/
def keyEventExtendedKey : UInt32 := 0x0001

/-- `KEYEVENTF_KEYUP`. -/
def keyEventKeyUp : UInt32 := 0x0002

/-- `KEYEVENTF_SCANCODE`. -/
def keyEventScanCode : UInt32 := 0x0008

/-- `MOUSEEVENTF_MOVE`. -/
def mouseEventMove : UInt32 := 0x0001

/-- `MOUSEEVENTF_LEFTDOWN`. -/
def mouseEventLeftDown : UInt32 := 0x0002

/-- `MOUSEEVENTF_LEFTUP`. -/
def mouseEventLeftUp : UInt32 := 0x0004

/-- `MOUSEEVENTF_RIGHTDOWN`. -/
def mouseEventRightDown : UInt32 := 0x0008

/-- `MOUSEEVENTF_RIGHTUP`. -/
def mouseEventRightUp : UInt32 := 0x0010

/-- `MOUSEEVENTF_MIDDLEDOWN`. -/
def mouseEventMiddleDown : UInt32 := 0x0020

/-- `MOUSEEVENTF_MIDDLEUP`. -/
def mouseEventMiddleUp : UInt32 := 0x0040

/-- `MOUSEEVENTF_XDOWN`. -/
def mouseEventXDown : UInt32 := 0x0080

/-- `MOUSEEVENTF_XUP`. -/
def mouseEventXUp : UInt32 := 0x0100

/-- `MOUSEEVENTF_WHEEL`. -/
def mouseEventWheel : UInt32 := 0x0800

/-- `MOUSEEVENTF_HWHEEL`. -/
def mouseEventHWheel : UInt32 := 0x1000

/-- `XBUTTON1`. -/
def xButton1 : UInt32 := 1

/-- `XBUTTON2`. -/
def xButton2 : UInt32 := 2

/-- `WHEEL_DELTA`. -/
def wheelDelta : Int32 := 120

namespace WindowsEmitter

/-- `a * b` on `int`: undefined on overflow. -/
def mulInt (a b : Int32) : Option Int32 :=
  let product := a.toInt * b.toInt
  if -2 ^ 31 ≤ product ∧ product < 2 ^ 31 then some (a * b) else none

/-- `sendInput`: its result, and the record if `SendInput` injects it. -/
def sendInput (injects : Bool) (input : WindowsInput) : Int32 × List WindowsInput :=
  if injects then (0, [input]) else (-1, [])

/-- `emitKey`. -/
def emitKey (injects : Bool) (hidCode : UInt16) (down : Bool) : Int32 × List WindowsInput :=
  let (scan, extended) := hidToWinScan hidCode
  if scan = 0 then (0, [])
  else
    let flags := keyEventScanCode ||| (if down then 0 else keyEventKeyUp) |||
      (if extended then keyEventExtendedKey else 0)
    sendInput injects (.keyboard 0 scan flags)

/-- `emitMouseMove`. -/
def emitMouseMove (injects : Bool) (dx dy : Int32) : Int32 × List WindowsInput :=
  sendInput injects (.mouse dx dy 0 mouseEventMove)

/-- `emitMouseWheel`. -/
def emitMouseWheel (injects : Bool) (delta : Int32) : Option (Int32 × List WindowsInput) := do
  let amount ← mulInt delta wheelDelta
  return sendInput injects (.mouse 0 0 amount.toUInt32 mouseEventWheel)

/-- `emitMouseHWheel`. -/
def emitMouseHWheel (injects : Bool) (delta : Int32) : Option (Int32 × List WindowsInput) := do
  let amount ← mulInt delta wheelDelta
  return sendInput injects (.mouse 0 0 amount.toUInt32 mouseEventHWheel)

/-- `emitMouseButton`. -/
def emitMouseButton (injects : Bool) (code : UInt16) (down : Bool) : Int32 × List WindowsInput :=
  let button (mouseData flags : UInt32) := sendInput injects (.mouse 0 0 mouseData flags)
  if code = 1 then button 0 (if down then mouseEventLeftDown else mouseEventLeftUp)
  else if code = 2 then button 0 (if down then mouseEventMiddleDown else mouseEventMiddleUp)
  else if code = 3 then button 0 (if down then mouseEventRightDown else mouseEventRightUp)
  else if code = 4 then button xButton1 (if down then mouseEventXDown else mouseEventXUp)
  else if code = 5 then button xButton2 (if down then mouseEventXDown else mouseEventXUp)
  -- unsupported button code
  else (0, [])

/-- `emit`: its result and the records injected, with whether `SendInput` injects. -/
def emit (injects : Bool) (event : InputEvent) : Option (Int32 × List WindowsInput) :=
  if event.type = .key then some (emitKey injects event.code (event.action = .down))
  else if event.type = .mouse then
    if event.action = .move then some (emitMouseMove injects event.dx event.dy)
    else if event.action = .scroll then
      -- `dy` is vertical and `dx` horizontal
      if event.dy ≠ 0 then emitMouseWheel injects event.dy
      else if event.dx ≠ 0 then emitMouseHWheel injects event.dx
      else some (0, [])
    else if event.action = .down then some (emitMouseButton injects event.code true)
    else if event.action = .up then some (emitMouseButton injects event.code false)
    else some (0, [])
  else some (0, [])

/-! ## Wheel records -/

/-- The signed wheel amount of a record with given flags. -/
def amountOf (flags : UInt32) : WindowsInput → ℤ
  | .mouse _ _ mouseData dwFlags => if dwFlags = flags then mouseData.toInt32.toInt else 0
  | .keyboard _ _ _ => 0

/-- The vertical wheel amount of the records injected. -/
def wheelTotal (inputs : List WindowsInput) : ℤ := (inputs.map (amountOf mouseEventWheel)).sum

/-- The horizontal wheel amount of the records injected. -/
def hWheelTotal (inputs : List WindowsInput) : ℤ := (inputs.map (amountOf mouseEventHWheel)).sum

@[simp]
theorem wheelTotal_append (inputs inputs' : List WindowsInput) :
    wheelTotal (inputs ++ inputs') = wheelTotal inputs + wheelTotal inputs' := by
  rw [wheelTotal, List.map_append, List.sum_append]
  rfl

@[simp]
theorem hWheelTotal_append (inputs inputs' : List WindowsInput) :
    hWheelTotal (inputs ++ inputs') = hWheelTotal inputs + hWheelTotal inputs' := by
  rw [hWheelTotal, List.map_append, List.sum_append]
  rfl

/-- A wheel amount within the range of `int` is exact. -/
theorem mulInt_wheelDelta {delta : Int32} (hlo : -2 ^ 31 ≤ delta.toInt * 120)
    (hhi : delta.toInt * 120 < 2 ^ 31) :
    ∃ amount, mulInt delta wheelDelta = some amount ∧ amount.toInt = delta.toInt * 120 := by
  refine ⟨delta * wheelDelta, if_pos ⟨hlo, hhi⟩, ?_⟩
  rw [Int32.toInt_mul]
  exact Int.bmod_eq_of_le (by change _ ≤ delta.toInt * 120; omega)
    (by change delta.toInt * 120 < _; omega)

/-- What a scroll is injected as: its vertical amount, and its horizontal amount only if it has no
vertical one. -/
theorem emit_scroll {code : UInt16} {dx dy : Int32}
    (hx : -2 ^ 31 ≤ dx.toInt * 120 ∧ dx.toInt * 120 < 2 ^ 31)
    (hy : -2 ^ 31 ≤ dy.toInt * 120 ∧ dy.toInt * 120 < 2 ^ 31) :
    ∃ inputs, emit true ⟨.mouse, .scroll, code, dx, dy⟩ = some (0, inputs) ∧
      wheelTotal inputs = dy.toInt * 120 ∧
      hWheelTotal inputs = if dy = 0 then dx.toInt * 120 else 0 := by
  have hemit : emit true ⟨.mouse, .scroll, code, dx, dy⟩ =
      if dy ≠ 0 then emitMouseWheel true dy
      else if dx ≠ 0 then emitMouseHWheel true dx
      else some (0, []) := rfl
  rw [hemit]
  by_cases hdy : dy = 0
  · -- the horizontal amount is only looked at in the else branch
    rw [if_neg (not_not.2 hdy), if_pos hdy, hdy]
    by_cases hdx : dx = 0
    · rw [if_neg (not_not.2 hdx), hdx]
      exact ⟨[], rfl, rfl, rfl⟩
    · obtain ⟨amount, hamount, hexact⟩ := mulInt_wheelDelta hx.1 hx.2
      rw [if_pos hdx, emitMouseHWheel, hamount]
      refine ⟨_, rfl, rfl, ?_⟩
      simp [hWheelTotal, amountOf, hexact]
  · obtain ⟨amount, hamount, hexact⟩ := mulInt_wheelDelta hy.1 hy.2
    rw [if_pos hdy, if_neg hdy, emitMouseWheel, hamount]
    refine ⟨_, rfl, ?_, rfl⟩
    simp [wheelTotal, amountOf, hexact]

end WindowsEmitter

end Keyleport
