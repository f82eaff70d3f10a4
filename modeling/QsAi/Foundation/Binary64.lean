import Mathlib.Data.Int.Log
import Mathlib.Data.Rat.Floor

/-! Binary floating point with 53 bits of precision. A finite double is the
rational it stands for; no computation here produces a NaN, and the sign of
zero is never observed. -/
namespace Binary64

/-- The result of a correctly rounded computation. -/
inductive Double
  | finite (value : ℚ)
  | infinite (negative : Bool)
deriving DecidableEq

/-- The nearest integer, and the even one of two that are equally near. -/
def roundHalfEven (value : ℚ) : ℤ :=
  let fraction := value - ⌊value⌋
  if fraction < 1 / 2 ∨ (fraction = 1 / 2 ∧ ⌊value⌋ % 2 = 0) then ⌊value⌋ else ⌊value⌋ + 1

/-- The exponent of the last bit of a double near the given magnitude. -/
def lastBit (magnitude : ℚ) : ℤ := max (Int.log 2 magnitude - 52) (-1074)

/-- The double nearest to a rational. -/
def round (value : ℚ) : Double :=
  if value = 0 then .finite 0
  else
    let magnitude := (2 : ℚ) ^ lastBit |value| * roundHalfEven (|value| / 2 ^ lastBit |value|)
    if (2 : ℚ) ^ 1024 ≤ magnitude then .infinite (decide (value < 0))
    else .finite (if value < 0 then -magnitude else magnitude)

namespace Double

/-- The integer a double stands for, if it stands for one. -/
def integer? : Double → Option ℤ
  | .finite value => if value.den = 1 then some value.num else none
  | .infinite _ => none

end Double

/-- A small integer spelled as a decimal is exactly that integer. -/
example : round 4 = .finite 4 := by decide +kernel

end Binary64
