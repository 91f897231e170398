import Mathlib.Algebra.Ring.Int.Defs
import Mathlib.Data.Rat.Defs

/-!
# Casts of a floating-point value to an integer

`static_cast<int>` truncates towards zero. It is defined only where the integer part is an `int`;
elsewhere a program may not count on any number, and platforms differ in the one they give. A cast
is therefore a function with the law for the values that fit.

* `FloatCast.trunc`, `FloatCast.Fits`: the integer part, and the values whose integer part is an
  `int`.
* `FloatCast`: the casts.
* `FloatCast.x86_64`: the cast of one platform.
-/

namespace FloatCast

/-- The integer part, towards zero. -/
def trunc (x : ℚ) : ℤ := x.num.tdiv x.den

/-- The integer part is an `int`. -/
def Fits (x : ℚ) : Prop := -2 ^ 31 ≤ trunc x ∧ trunc x < 2 ^ 31

instance : DecidablePred Fits := fun _ => inferInstanceAs (Decidable (_ ∧ _))

end FloatCast

/-- `static_cast<int>` of a floating-point value. -/
structure FloatCast where
  /-- The number a value is cast to. -/
  toInt32 : ℚ → Int32
  /-- A value that fits is truncated. -/
  toInt_toInt32 {x : ℚ} : FloatCast.Fits x → (toInt32 x).toInt = FloatCast.trunc x

namespace FloatCast

/-- The cast of x86-64, which gives the least `int` for a value that does not fit. -/
def x86_64 : FloatCast where
  toInt32 x := if Fits x then Int32.ofInt (trunc x) else Int32.minValue
  toInt_toInt32 h := by rw [if_pos h, Int32.toInt_ofInt_of_le h.1 h.2]

end FloatCast
