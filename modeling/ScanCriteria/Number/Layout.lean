import ScanCriteria.Number.Shortest

/-!
# Layouts of decimal text

A layout fixes where positional notation ends and how an exponent is written; `Layout.text` writes
the digits of a decimal in it.
-/
namespace ScanCriteria

structure Layout where
  /-- Least exponent of the leading digit that is written positionally. -/
  least : Int
  /-- Greatest exponent of the leading digit that is written positionally. -/
  greatest : Int
  /-- What follows a whole number in positional notation. -/
  wholeTail : String
  /-- What stands before the digits of an exponent that is not negative. -/
  plus : String

namespace Layout

def zeros (n : Nat) : String := "".pushn '0' n

/-- The digits `ds` with the leading one at `10 ^ e`. -/
def positional (l : Layout) (ds : List Char) (e : Int) : String :=
  if e < 0 then "0." ++ zeros (-e - 1).toNat ++ String.ofList ds
  else
    let whole := (e + 1).toNat
    if ds.length ≤ whole then String.ofList ds ++ zeros (whole - ds.length) ++ l.wholeTail
    else String.ofList (ds.take whole) ++ "." ++ String.ofList (ds.drop whole)

def scientific (l : Layout) (ds : List Char) (e : Int) : String :=
  let rest := ds.drop 1
  String.ofList (ds.take 1) ++ (if rest.isEmpty then "" else "." ++ String.ofList rest) ++ "e"
    ++ (if e < 0 then "-" else l.plus) ++ toString e.natAbs

def text (l : Layout) (d : Decimal) : String :=
  let ds := Nat.toDigits 10 d.digits
  let e := d.exponent + (ds.length - 1 : Nat)
  if l.least ≤ e ∧ e ≤ l.greatest then l.positional ds e else l.scientific ds e

/-- The text of a finite double: its sign and its shortest decimal. -/
def doubleText (l : Layout) (x : Double) : String :=
  (if x.isNegative then "-" else "") ++ l.text x.shortest

end Layout
end ScanCriteria
