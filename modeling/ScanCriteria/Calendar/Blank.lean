/-!
# White space

The characters with the Unicode property `White_Space`.
-/
namespace ScanCriteria.Calendar

/-- Ranges of code points, ends included. -/
def blankRanges : List (Nat × Nat) :=
  [(0x09, 0x0D), (0x20, 0x20), (0x85, 0x85), (0xA0, 0xA0), (0x1680, 0x1680), (0x2000, 0x200A),
   (0x2028, 0x2029), (0x202F, 0x202F), (0x205F, 0x205F), (0x3000, 0x3000)]

def isBlank (c : Char) : Bool := blankRanges.any fun (lo, hi) => lo ≤ c.toNat && c.toNat ≤ hi

def skipBlanks (cs : List Char) : List Char := cs.dropWhile isBlank

end ScanCriteria.Calendar
