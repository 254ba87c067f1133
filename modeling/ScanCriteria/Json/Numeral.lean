import ScanCriteria.Json.Value
import ScanCriteria.Reader

/-!
# Reading JSON numbers

A literal without fraction and exponent that fits sixty-four bits is an integer, `-0` excepted. Any
other is a double: its leading digits form a significand of at most sixty-four bits, later digits
only count as zeros, and the significand, as a double, is multiplied or divided by a power of ten,
as a double. So a literal of more than fifteen digits may miss the nearest double by one unit. A
literal beyond the range of doubles is refused.
-/
namespace ScanCriteria.Json

/-- The parts of a number literal. -/
structure Numeral where
  negative : Bool
  whole : List Char
  fraction : List Char
  /-- Written exponent; absent without an `e`. -/
  power : Option Int

namespace Numeral

def digitValue (c : Char) : Nat := c.toNat - '0'.toNat

/-- Extends a significand by digits as long as it keeps to sixty-four bits; gives it back with the
number of digits that were not taken. -/
def take : Nat → List Char → Nat × Nat
  | m, [] => (m, 0)
  | m, d :: ds =>
    if 10 * m + digitValue d < 1 <<< 64 then take (10 * m + digitValue d) ds else (m, ds.length + 1)

def powerOfTen (k : Nat) : Double := .ofNat (Nat.pow 10 k)

/-- The largest power of ten among the doubles. -/
def greatestPower : Nat := 308

/-- Divides by `10 ^ k` in as few steps as doubles allow, stopping at zero. -/
def divideByPower (x : Double) (k : Nat) : Double :=
  if k ≤ greatestPower then x.div (powerOfTen k)
  else if x.isZero then x
  else divideByPower (x.div (powerOfTen greatestPower)) (k - greatestPower)
termination_by k
decreasing_by simp [greatestPower] at *; omega

/-- Multiplies a significand by a power of ten; absent beyond the range of doubles. -/
def scale (m : Nat) (power : Int) : Option Double :=
  let x := Double.ofNat m
  if power < 0 then some (divideByPower x (-power).toNat)
  else if power ≤ greatestPower then
    let y := x.mul (powerOfTen power.toNat)
    if y.isFinite then some y else none
  else if x.isZero then some x else none

def toDouble? (n : Numeral) : Option Double :=
  let (m, dropped) := take 0 n.whole
  let (m', rest) := take m n.fraction
  let taken := n.fraction.length - rest
  (scale m' (n.power.getD 0 + dropped - taken)).map fun x => if n.negative then x.negate else x

/-- The integer that a literal without fraction and exponent denotes. -/
def integer? (n : Numeral) : Option Number :=
  if n.fraction.isEmpty ∧ n.power.isNone then
    let m := Reader.digitsValue n.whole
    if n.negative then
      if 0 < m ∧ m ≤ 1 <<< 63 then Number.integer? (-m) else none
    else Number.integer? m
  else none

def toNumber? (n : Numeral) : Option Number :=
  n.integer? <|> (n.toDouble? >>= Number.real?)

end Numeral
end ScanCriteria.Json
