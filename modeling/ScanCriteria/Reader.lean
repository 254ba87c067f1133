/-!
# Readers

A reader takes a value from the front of a text and leaves the rest, or refuses the text.
-/
namespace ScanCriteria

abbrev Reader (α : Type) := List Char → Option (α × List Char)

namespace Reader

/-- Splits a text after its leading digits. -/
def digits (cs : List Char) : List Char × List Char := cs.span Char.isDigit

/-- The number that decimal digits denote. -/
def digitsValue (ds : List Char) : Nat := ds.foldl (fun n c => 10 * n + (c.toNat - '0'.toNat)) 0

def char (c : Char) : Reader Unit
  | d :: rest => if d = c then some ((), rest) else none
  | [] => none

/-- Reads the whole of a text. -/
def all (r : Reader α) (cs : List Char) : Option α :=
  match r cs with
  | some (a, []) => some a
  | _ => none

end Reader
end ScanCriteria
