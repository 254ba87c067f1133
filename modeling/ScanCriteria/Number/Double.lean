/-!
# Double precision numbers

A double is its sixty-four bits: a sign, eleven bits of exponent, fifty-two of fraction. A finite
one denotes `± significand · 2 ^ scale`. `agrees` compares the numbers and not the bits: the two
zeros agree, and what is not a number agrees with nothing.
-/
namespace ScanCriteria

structure Double where
  bits : UInt64
  deriving DecidableEq, Inhabited, Repr

namespace Double

/-- The bits below the sign: exponent and fraction as one number, ordered as the magnitudes are. -/
def magnitude (x : Double) : Nat := x.bits.toNat % 1 <<< 63

def isNegative (x : Double) : Bool := 1 <<< 63 ≤ x.bits.toNat

def exponent (x : Double) : Nat := x.magnitude >>> 52

def fraction (x : Double) : Nat := x.magnitude % 1 <<< 52

/-- Magnitude of the infinities; what lies above it is not a number. -/
def infiniteMagnitude : Nat := 2047 <<< 52

def isFinite (x : Double) : Bool := x.magnitude < infiniteMagnitude

def isNaN (x : Double) : Bool := infiniteMagnitude < x.magnitude

def isZero (x : Double) : Bool := x.magnitude == 0

/-- Numeric equality. -/
def agrees (x y : Double) : Bool :=
  !x.isNaN && !y.isNaN && (x == y || (x.isZero && y.isZero))

/-- The whole number that `2 ^ scale` multiplies. -/
def significand (x : Double) : Nat :=
  if x.exponent = 0 then x.fraction else x.fraction + 1 <<< 52

def scale (x : Double) : Int := (max x.exponent 1 : Nat) - 1075

def ofMagnitude (negative : Bool) (m : Nat) : Double :=
  ⟨UInt64.ofNat ((if negative then 1 <<< 63 else 0) + m)⟩

def zero : Double := ofMagnitude false 0

def infinity (negative : Bool) : Double := ofMagnitude negative infiniteMagnitude

def nan : Double := ofMagnitude false (infiniteMagnitude + 1 <<< 51)

def negate (x : Double) : Double := ofMagnitude (!x.isNegative) x.magnitude

theorem agrees_self {x : Double} (h : x.isFinite = true) : x.agrees x = true := by
  have hn : x.isNaN = false := by
    simp only [isFinite, isNaN, decide_eq_true_eq, decide_eq_false_iff_not] at *
    omega
  simp [agrees, hn]

end Double
end ScanCriteria
