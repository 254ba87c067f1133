import ScanCriteria.Entries
import ScanCriteria.Number.Rounding

/-!
# JSON values

A JSON number is an integer of sixty-four bits, signed or not, or a finite double. Objects keep
their entries as a list, in the order in which they are written.
-/
namespace ScanCriteria.Json

inductive Number where
  | integer (i : Int) (fits : -(1 <<< 63 : Nat) ≤ i ∧ i < (1 <<< 64 : Nat))
  | real (x : Double) (finite : x.isFinite = true)
  deriving DecidableEq

namespace Number

def toDouble : Number → Double
  | integer i _ => .ofInt i
  | real x _ => x

def integer? (i : Int) : Option Number :=
  if h : -(1 <<< 63 : Nat) ≤ i ∧ i < (1 <<< 64 : Nat) then some (integer i h) else none

def real? (x : Double) : Option Number :=
  if h : x.isFinite = true then some (real x h) else none

end Number

inductive Value where
  | null
  | bool (b : Bool)
  | number (n : Number)
  | string (s : String)
  | array (items : List Value)
  | object (entries : List (String × Value))
  deriving Inhabited

namespace Value

def isNull : Value → Bool
  | null => true
  | _ => false

/-- A name: a string, or the key of an object that holds nothing else than `null` under it. -/
def name? : Value → Option String
  | string s | object [(s, null)] => some s
  | _ => none

/-- The parts of a structure under their names: an object, or an array of all of them in order. -/
def parts? (names : List String) : Value → Option (Entries Value)
  | object es => some es
  | array vs => if vs.length = names.length then some (names.zip vs) else none
  | _ => none

/-- JSON has no number that is not finite; it is written as `null`. -/
def ofDouble (x : Double) : Value :=
  match Number.real? x with
  | some n => number n
  | none => null

def ofNat (n : Nat) : Value :=
  match Number.integer? n with
  | some n => number n
  | none => null

def ofInt (i : Int) : Value :=
  match Number.integer? i with
  | some n => number n
  | none => null

theorem ofDouble_of_isFinite {x : Double} (h : x.isFinite = true) :
    ofDouble x = number (.real x h) := by
  simp [ofDouble, Number.real?, h]

theorem ofDouble_of_not_isFinite {x : Double} (h : x.isFinite = false) : ofDouble x = null := by
  simp [ofDouble, Number.real?, h]

theorem ofDouble_cases (x : Double) :
    (∃ h : x.isFinite = true, ofDouble x = number (.real x h)) ∨
      x.isFinite = false ∧ ofDouble x = null := by
  by_cases h : x.isFinite = true
  · exact .inl ⟨h, ofDouble_of_isFinite h⟩
  · have hx : x.isFinite = false := Bool.eq_false_iff.mpr h
    exact .inr ⟨hx, ofDouble_of_not_isFinite hx⟩

end Value
end ScanCriteria.Json
