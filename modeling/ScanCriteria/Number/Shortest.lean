import ScanCriteria.Number.Double

/-!
# The shortest decimal of a double

Of the decimals that round to a given double, `Double.shortest` takes one with the fewest digits,
and of those the nearest to it; an exact tie goes to the even digit. The reals that round to a
double form an interval around it, closed when its significand is even. If a decimal grid meets the
interval, it does so in one of the two grid points next to the double, so only these are tried,
from the coarsest grid to the finer ones.
-/
namespace ScanCriteria

/-- A decimal `digits · 10 ^ exponent`. -/
structure Decimal where
  digits : Nat
  exponent : Int
  deriving DecidableEq, Repr

namespace Double

/-- A double and its interval in quarters of its unit, over a common scale. -/
structure Neighbourhood where
  low : Nat
  value : Nat
  high : Nat
  closed : Bool

/-- The interval of reals that round to `x`, in units of `2 ^ (scale - 2)`. Below a power of two the
doubles lie twice as dense, except among the smallest ones. -/
def neighbourhood (x : Double) : Neighbourhood :=
  let m := 4 * x.significand
  ⟨m - (if x.fraction = 0 ∧ 1 < x.exponent then 1 else 2), m, m + 2, x.significand % 2 == 0⟩

namespace Neighbourhood

def scaleBy (n : Neighbourhood) (k : Nat) : Neighbourhood :=
  ⟨n.low * k, n.value * k, n.high * k, n.closed⟩

def contains (n : Neighbourhood) (p : Nat) : Bool :=
  if n.closed then n.low ≤ p && p ≤ n.high else n.low < p && p < n.high

/-- The better of the two multiples of `step` next to the value, if one lies in the interval. -/
def multiple? (n : Neighbourhood) (step : Nat) : Option Nat :=
  let c := n.value / step
  match n.contains (c * step), n.contains ((c + 1) * step) with
  | true, true =>
    if 2 * n.value < (2 * c + 1) * step then some c
    else if (2 * c + 1) * step < 2 * n.value then some (c + 1)
    else some (c + c % 2)
  | true, false => some c
  | false, true => some (c + 1)
  | false, false => none

/-- Tries the grids `10 ^ g`, `10 ^ (g - 1)`, … for a value in units of `2 ^ unit`. -/
def search (n : Neighbourhood) (unit : Int) : Nat → Int → Decimal
  | 0, g => ⟨0, g⟩
  | steps + 1, g =>
    let scaled := n.scaleBy (Nat.pow 10 (-g).toNat <<< unit.toNat)
    match scaled.multiple? (Nat.pow 10 g.toNat <<< (-unit).toNat) with
    | some c => ⟨c, g⟩
    | none => search n unit steps (g - 1)

end Neighbourhood

/-- An upper bound for the exponent of the leading digit, from `log 2 < 0.30103`. -/
def leadingExponentBound (x : Double) : Int :=
  ((Nat.log2 x.significand + 1 : Nat) + x.scale) * 30103 / 100000 + 1

/-- The shortest decimal that rounds to the finite double `x`, without its sign. Seventeen digits
always suffice; the search starts at most three grids above the leading digit. -/
def shortest (x : Double) : Decimal :=
  if x.isZero then ⟨0, 0⟩
  else x.neighbourhood.search (x.scale - 2) 21 x.leadingExponentBound

end Double
end ScanCriteria
