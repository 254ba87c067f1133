import ScanCriteria.Number.Double

/-!
# Rounding to the nearest double

`Double.nearest` takes an exact quotient of whole numbers to the double nearest to it; of two
equally near ones it takes the one with the even significand. What lies beyond the largest double
becomes infinite. Products and quotients of doubles are the exact ones, rounded.
-/
namespace ScanCriteria

/-- The whole number nearest `num / den`, of two the even one. -/
def roundDiv (num den : Nat) : Nat :=
  let q := num / den
  let r := num % den
  if 2 * r < den then q else if den < 2 * r then q + 1 else q + q % 2

/-- Decides `den · 2 ^ e ≤ num`. -/
def reachesPower (num den : Nat) (e : Int) : Bool :=
  if 0 ≤ e then den <<< e.toNat ≤ num else den ≤ num <<< (-e).toNat

/-- The greatest `e` with `2 ^ e ≤ num / den`, for positive `num` and `den`. -/
def floorLog2 (num den : Nat) : Int :=
  let e : Int := (Nat.log2 num : Int) - Nat.log2 den
  if reachesPower num den e then e else e - 1

namespace Double

/-- The double nearest `± num / den`. -/
def nearest (negative : Bool) (num den : Nat) : Double :=
  if num = 0 then ofMagnitude negative 0
  else
    let unit := max (floorLog2 num den - 52) (-1074)
    let q :=
      if 0 ≤ unit then roundDiv num (den <<< unit.toNat)
      else roundDiv (num <<< (-unit).toNat) den
    ofMagnitude negative (min ((unit + 1074).toNat <<< 52 + q) infiniteMagnitude)

def ofNat (n : Nat) : Double := nearest false n 1

def ofInt (i : Int) : Double := nearest (i < 0) i.natAbs 1

/-- The magnitude of a finite double as a quotient. -/
def ratio (x : Double) : Nat × Nat :=
  if 0 ≤ x.scale then (x.significand <<< x.scale.toNat, 1)
  else (x.significand, 1 <<< (-x.scale).toNat)

/-- The rounded product of two finite doubles. -/
def mul (x y : Double) : Double :=
  nearest (x.isNegative != y.isNegative) (x.ratio.1 * y.ratio.1) (x.ratio.2 * y.ratio.2)

/-- The rounded quotient of two finite doubles, the second of them not zero. -/
def div (x y : Double) : Double :=
  nearest (x.isNegative != y.isNegative) (x.ratio.1 * y.ratio.2) (x.ratio.2 * y.ratio.1)

end Double
end ScanCriteria
