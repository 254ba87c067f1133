import ScanCriteria.Calendar.Blank
import ScanCriteria.Calendar.Moment
import ScanCriteria.Reader

/-!
# Reading moments

`Moment.read?` accepts five forms: the strict form of RFC 3339; a time to the minute with an offset;
a time to the second or to the minute without offset, one `Z` at the end allowed, in UTC; and a bare
day, midnight in UTC. All but the first are loose: blanks may stand before a number, a number may be
short, and a year may have a sign and any number of digits. `Moment.readInstant?` is looser still.
-/
namespace ScanCriteria

namespace Calendar
open Reader

/-- A digit, or the refusal of anything else. -/
def digit : Reader Nat
  | c :: rest => if c.isDigit then some (c.toNat - '0'.toNat, rest) else none
  | [] => none

def twoDigits : Reader Nat := fun cs => do
  let (a, cs) ← digit cs
  let (b, cs) ← digit cs
  return (10 * a + b, cs)

def fourDigits : Reader Nat := fun cs => do
  let (a, cs) ← twoDigits cs
  let (b, cs) ← twoDigits cs
  return (100 * a + b, cs)

/-- One to `most` digits, as many as there are. -/
def upTo (most : Nat) : Reader Nat := fun cs =>
  let ds := (cs.take most).takeWhile Char.isDigit
  if ds.isEmpty then none else some (digitsValue ds, cs.drop ds.length)

/-- Blanks and a number of one or two digits. -/
def looseNumber : Reader Nat := fun cs => upTo 2 (skipBlanks cs)

/-- Blanks and a year: up to four digits, or a sign and any number of digits. -/
def looseYear : Reader Int := fun cs =>
  match skipBlanks cs with
  | '+' :: rest => match digits rest with
    | ([], _) => none
    | (ds, rest) => some ((digitsValue ds : Int), rest)
  | '-' :: rest => match digits rest with
    | ([], _) => none
    | (ds, rest) => some (-(digitsValue ds : Int), rest)
  | cs => (upTo 4 cs).map fun (y, rest) => ((y : Int), rest)

/-- Nanoseconds of a decimal fraction: its first nine digits count. -/
def nanosOfDigits (ds : List Char) : Nat :=
  let first := ds.take 9
  digitsValue first * Nat.pow 10 (9 - first.length)

/-- Nothing, or a point and at least one digit. -/
def optionalFraction : Reader Nat := fun cs =>
  match cs with
  | '.' :: rest =>
    match digits rest with
    | ([], _) => none
    | (ds, rest) => some (nanosOfDigits ds, rest)
  | _ => some (0, cs)

/-- The signs of an offset: plus, hyphen and the minus of mathematics. -/
def offsetSign : Reader Int
  | c :: rest =>
    if c = '+' then some (1, rest) else if c = '-' ∨ c = '\u2212' then some (-1, rest) else none
  | [] => none

/-- A sign, two digits of hours, what `separator` takes, two digits of minutes. -/
def offset (separator : Reader Unit) : Reader Int := fun cs => do
  let (sign, cs) ← offsetSign cs
  let (h, cs) ← twoDigits cs
  let ((), cs) ← separator cs
  let (m, cs) ← twoDigits cs
  if m < 60 then return (sign * (60 * h + m : Nat), cs) else none

def colonsAndBlanks : Reader Unit := fun cs =>
  some ((), cs.dropWhile fun c => c == ':' || isBlank c)

/-- A local day and time; second 60 becomes a leap second. -/
def parts (date : Int × Nat × Nat) (hour minute second nanos : Nat) (offset : Int) :
    Option Moment :=
  let (year, month, day) := date
  Moment.ofParts? (
    if second = 60 then ⟨year, month, day, hour, minute, 59, nanos + nanosPerSecond, offset⟩
    else ⟨year, month, day, hour, minute, second, nanos, offset⟩)

def strictDate : Reader (Int × Nat × Nat) := fun cs => do
  let (y, cs) ← fourDigits cs
  let ((), cs) ← char '-' cs
  let (m, cs) ← twoDigits cs
  let ((), cs) ← char '-' cs
  let (d, cs) ← twoDigits cs
  return (((y : Int), m, d), cs)

/-- The letter between day and time, or a space. -/
def dateTimeMark : Reader Unit
  | c :: rest => if c = 'T' ∨ c = 't' ∨ c = ' ' then some ((), rest) else none
  | [] => none

def zuluOrOffset (separator : Reader Unit) : Reader Int := fun cs =>
  match cs with
  | 'Z' :: rest => some (0, rest)
  | 'z' :: rest => some (0, rest)
  | _ => offset separator cs

def strict : Reader (Option Moment) := fun cs => do
  let (date, cs) ← strictDate cs
  let ((), cs) ← dateTimeMark cs
  let (h, cs) ← twoDigits cs
  let ((), cs) ← char ':' cs
  let (m, cs) ← twoDigits cs
  let ((), cs) ← char ':' cs
  let (s, cs) ← twoDigits cs
  let (n, cs) ← optionalFraction cs
  let (o, cs) ← zuluOrOffset (char ':') cs
  return (parts date h m s n o, cs)

def looseDate : Reader (Int × Nat × Nat) := fun cs => do
  let (y, cs) ← looseYear cs
  let ((), cs) ← char '-' cs
  let (m, cs) ← looseNumber cs
  let ((), cs) ← char '-' cs
  let (d, cs) ← looseNumber cs
  return ((y, m, d), cs)

/-- A day, `T`, hours and minutes. -/
def looseMinute : Reader ((Int × Nat × Nat) × Nat × Nat) := fun cs => do
  let (date, cs) ← looseDate cs
  let ((), cs) ← char 'T' cs
  let (h, cs) ← looseNumber cs
  let ((), cs) ← char ':' cs
  let (m, cs) ← looseNumber cs
  return ((date, h, m), cs)

def minuteWithOffset : Reader (Option Moment) := fun cs => do
  let ((date, h, m), cs) ← looseMinute cs
  let (o, cs) ← offset colonsAndBlanks (skipBlanks cs)
  return (parts date h m 0 0 o, cs)

def utcSecond : Reader (Option Moment) := fun cs => do
  let ((date, h, m), cs) ← looseMinute cs
  let ((), cs) ← char ':' cs
  let (s, cs) ← looseNumber cs
  let (n, cs) ← optionalFraction cs
  return (parts date h m s n 0, cs)

def utcMinute : Reader (Option Moment) := fun cs => do
  let ((date, h, m), cs) ← looseMinute cs
  return (parts date h m 0 0 0, cs)

def bareDay : Reader (Option Moment) := fun cs => do
  let (date, cs) ← looseDate cs
  return (parts date 0 0 0 0 0, cs)

/-- The text before one `Z` at its end, or the whole text. -/
def withoutZulu (cs : List Char) : List Char :=
  if cs.getLast? = some 'Z' then cs.dropLast else cs

/-- Between the parts of an instant blanks may stand before any mark. -/
def blanksThen (c : Char) : Reader Unit := fun cs => char c (skipBlanks cs)

/-- `UTC` in any case. -/
def utcName : Reader Int
  | u :: t :: c :: rest =>
    if [u, t, c].map Char.toUpper = ['U', 'T', 'C'] then some (0, rest) else none
  | _ => none

def instantForm : Reader (Option Moment) := fun cs => do
  let (y, cs) ← looseYear cs
  let ((), cs) ← blanksThen '-' cs
  let (mo, cs) ← looseNumber cs
  let ((), cs) ← blanksThen '-' cs
  let (d, cs) ← looseNumber cs
  let ((), cs) ← dateTimeMark cs
  let (h, cs) ← looseNumber cs
  let ((), cs) ← blanksThen ':' cs
  let (m, cs) ← looseNumber cs
  let ((), cs) ← blanksThen ':' cs
  let (s, cs) ← looseNumber cs
  let (n, cs) ← optionalFraction cs
  let cs := skipBlanks cs
  let (o, cs) ← utcName cs <|> zuluOrOffset colonsAndBlanks cs
  return (parts (y, mo, d) h m s n o, skipBlanks cs)

end Calendar

namespace Moment
open Calendar Reader

def ofForm? (form : Reader (Option Moment)) (cs : List Char) : Option Moment := (form.all cs).join

def readChars? (cs : List Char) : Option Moment :=
  ofForm? strict cs <|> ofForm? minuteWithOffset cs <|> ofForm? utcSecond (withoutZulu cs)
    <|> ofForm? utcMinute (withoutZulu cs) <|> ofForm? bareDay cs

def read? (s : String) : Option Moment := readChars? s.toList

/-- Reads a full date and time with its offset: the written form of a moment, with blanks between
its parts, short numbers and `UTC` allowed. -/
def readInstant? (s : String) : Option Moment := ofForm? instantForm s.toList

end Moment
end ScanCriteria
