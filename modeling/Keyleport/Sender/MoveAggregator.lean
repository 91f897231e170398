import Keyleport.Keyboard.InputEvent
import Mathlib.Algebra.BigOperators.Group.List.Basic
import Mathlib.Algebra.Group.Prod
import Mathlib.Algebra.Ring.Int.Defs

/-!
# The move aggregator

`flows/sender/move_aggregator.h`: a sum of deltas that is filled by one thread and emptied by
another, each under a lock. A sum that leaves the range of `int` is undefined behaviour; such an
addition has no outcome here.

* `MoveAggregator.add_held`: an addition adds its delta to what is held.
* `MoveAggregator.take_held`: a taking takes all that is held.
-/

namespace Keyleport

/-- A movement, as exact integers. -/
abbrev Motion := ℤ × ℤ

/-- `flows::MoveAggregator`. -/
structure MoveAggregator where
  running : Bool
  aggDx : Int32
  aggDy : Int32
deriving DecidableEq, Repr

namespace MoveAggregator

/-- `MoveAggregator{}`. -/
def new : MoveAggregator := ⟨true, 0, 0⟩

/-- `a += b` on `int`: undefined on overflow. -/
def addInt (a b : Int32) : Option Int32 :=
  let sum := a.toInt + b.toInt
  if -2 ^ 31 ≤ sum ∧ sum < 2 ^ 31 then some (a + b) else none

/-- `add`. -/
def add (agg : MoveAggregator) (dx dy : Int32) : Option MoveAggregator :=
  if dx = 0 ∧ dy = 0 then some agg
  else do
    let aggDx ← addInt agg.aggDx dx
    let aggDy ← addInt agg.aggDy dy
    return { agg with aggDx := aggDx, aggDy := aggDy }

/-- `take`: the sum, and the emptied aggregator. -/
def take (agg : MoveAggregator) : (Int32 × Int32) × MoveAggregator :=
  ((agg.aggDx, agg.aggDy), { agg with aggDx := 0, aggDy := 0 })

/-- What is held. -/
def held (agg : MoveAggregator) : Motion := (agg.aggDx.toInt, agg.aggDy.toInt)

theorem addInt_toInt {a b c : Int32} (h : addInt a b = some c) :
    c.toInt = a.toInt + b.toInt := by
  obtain ⟨hrange, h⟩ := Option.ite_none_right_eq_some.1 h
  obtain rfl := Option.some.inj h
  rw [Int32.toInt_add]
  exact Int.bmod_eq_of_le (by omega) (by omega)

/-- An addition that is defined adds its delta and does not stop the aggregator. -/
theorem add_held {agg agg' : MoveAggregator} {dx dy : Int32} (h : agg.add dx dy = some agg') :
    agg'.held = agg.held + (dx.toInt, dy.toInt) ∧ agg'.running = agg.running := by
  rw [add] at h
  split at h
  next hzero =>
    obtain ⟨rfl, rfl⟩ := hzero
    obtain rfl := Option.some.inj h
    exact ⟨(add_zero agg.held).symm, rfl⟩
  next =>
    obtain ⟨aggDx, hdx, h⟩ := Option.bind_eq_some_iff.1 h
    obtain ⟨aggDy, hdy, h⟩ := Option.bind_eq_some_iff.1 h
    obtain rfl := Option.some.inj h
    exact ⟨Prod.ext (addInt_toInt hdx) (addInt_toInt hdy), rfl⟩

/-- A taking leaves nothing behind. -/
theorem take_held (agg : MoveAggregator) :
    (agg.take.1.1.toInt, agg.take.1.2.toInt) = agg.held ∧ agg.take.2.held = 0 :=
  ⟨rfl, rfl⟩

end MoveAggregator

end Keyleport
