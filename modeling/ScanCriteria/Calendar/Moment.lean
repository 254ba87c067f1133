import ScanCriteria.Calendar.Day

/-!
# Moments

A moment is a local date and time with its offset from UTC in whole minutes. A leap second is second
59 with a thousand million nanoseconds more, and is written as second 60. Two moments agree when
they are the same instant, whatever their offsets. `Moment.text` writes the ISO 8601 form.

The local year of a moment is in range, as it is in whatever is read. The last hours of the least
and of the greatest year in UTC are in a year out of range elsewhere; with such an offset they are
dates that can be written, but no moments.
-/
namespace ScanCriteria

namespace Calendar

def leastYear : Int := -262143

def greatestYear : Int := 262142

def nanosPerSecond : Nat := 1000000000

/-- Unix seconds of a local time, read at offset zero. -/
def localSeconds (year : Int) (month day hour minute second : Nat) : Int :=
  dayNumber year month day * 86400 + (hour * 3600 + minute * 60 + second : Nat)

/-- The instants of the years from the least to the greatest. -/
def inRange (seconds : Int) : Prop :=
  dayNumber leastYear 1 1 * 86400 ≤ seconds ∧ seconds < dayNumber (greatestYear + 1) 1 1 * 86400

instance (seconds : Int) : Decidable (inRange seconds) :=
  inferInstanceAs (Decidable (_ ∧ _))

end Calendar

open Calendar

/-- The parts of a moment, before they are checked. -/
structure MomentParts where
  year : Int
  month : Nat
  day : Nat
  hour : Nat
  minute : Nat
  second : Nat
  nanos : Nat
  /-- Minutes east of UTC. -/
  offset : Int
  deriving DecidableEq, Repr

namespace MomentParts

/-- Unix seconds; a leap second counts as the second before it. -/
def seconds (p : MomentParts) : Int :=
  localSeconds p.year p.month p.day p.hour p.minute p.second - p.offset * 60

/-- Parts that name a moment: a day of the calendar, a time of day, an offset of less than a day,
and a year in range both locally and in UTC. -/
def Valid (p : MomentParts) : Prop :=
  (leastYear ≤ p.year ∧ p.year ≤ greatestYear) ∧ (1 ≤ p.month ∧ p.month ≤ 12) ∧
  (1 ≤ p.day ∧ p.day ≤ daysInMonth p.year p.month) ∧ p.hour < 24 ∧ p.minute < 60 ∧ p.second < 60 ∧
  p.nanos < 2 * nanosPerSecond ∧ (nanosPerSecond ≤ p.nanos → p.second = 59) ∧
  (-1440 < p.offset ∧ p.offset < 1440) ∧ inRange p.seconds

instance (p : MomentParts) : Decidable p.Valid := by unfold Valid; infer_instance

end MomentParts

structure Moment extends MomentParts where
  valid : toMomentParts.Valid
  deriving DecidableEq

namespace Moment

def ofParts? (p : MomentParts) : Option Moment :=
  if h : p.Valid then some ⟨p, h⟩ else none

/-- The same instant. -/
def agrees (a b : Moment) : Bool := a.seconds == b.seconds && a.nanos == b.nanos

theorem agrees_self (a : Moment) : a.agrees a = true := by simp [agrees]

theorem ofParts?_toMomentParts (a : Moment) : ofParts? a.toMomentParts = some a := by
  simp [ofParts?, a.valid]

/-- Decimal digits with zeros in front, at least `width` in all. -/
def padded (width n : Nat) : List Char :=
  let ds := Nat.toDigits 10 n
  List.replicate (width - ds.length) '0' ++ ds

/-- Four digits from year 0 to 9999, else a sign and at least four. -/
def yearText (year : Int) : List Char :=
  if 0 ≤ year ∧ year ≤ 9999 then padded 4 year.natAbs
  else (if year < 0 then '-' else '+') :: padded 4 year.natAbs

/-- The fewest of no, three, six or nine places that are exact. -/
def fractionText (nanos : Nat) : List Char :=
  if nanos = 0 then []
  else if nanos % 1000000 = 0 then '.' :: padded 3 (nanos / 1000000)
  else if nanos % 1000 = 0 then '.' :: padded 6 (nanos / 1000)
  else '.' :: padded 9 nanos

def offsetText (offset : Int) : List Char :=
  if offset = 0 then ['Z']
  else
    (if offset < 0 then '-' else '+') ::
      (padded 2 (offset.natAbs / 60) ++ ':' :: padded 2 (offset.natAbs % 60))

end Moment

namespace MomentParts
open Moment

/-- The second as it is written, one more in a leap second. -/
def writtenSecond (p : MomentParts) : Nat := p.second + p.nanos / nanosPerSecond

def chars (p : MomentParts) : List Char :=
  yearText p.year ++ '-' :: padded 2 p.month ++ '-' :: padded 2 p.day ++ 'T' :: padded 2 p.hour
    ++ ':' :: padded 2 p.minute ++ ':' :: padded 2 p.writtenSecond
    ++ fractionText (p.nanos % nanosPerSecond) ++ offsetText p.offset

def text (p : MomentParts) : String := String.ofList p.chars

end MomentParts

def Moment.text (a : Moment) : String := a.toMomentParts.text

end ScanCriteria
