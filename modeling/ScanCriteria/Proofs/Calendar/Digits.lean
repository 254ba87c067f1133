import Mathlib.Algebra.Group.Nat.Defs
import Mathlib.Data.List.TakeDrop
import Mathlib.Data.List.TakeWhile
import ScanCriteria.Calendar.Reading

/-!
# Reading padded numbers

Every reader of a number in a date gives back the number that `Moment.padded` wrote, and leaves what
stands behind it. A reader that takes as many digits as there are needs a text behind it that starts
with none.
-/
namespace ScanCriteria

namespace Moment
open Reader

theorem padded_isDigit {w n : Nat} {c : Char} (h : c ∈ padded w n) : c.isDigit = true := by
  simp only [padded, List.mem_append, List.mem_replicate] at h
  rcases h with ⟨_, rfl⟩ | h
  · decide
  · exact Nat.isDigit_of_mem_toDigits (by decide) (by decide) h

theorem padded_ne_nil (w n : Nat) : padded w n ≠ [] := by
  simp [padded]

theorem padded_length {w n : Nat} (hw : 0 < w) (h : n < 10 ^ w) : (padded w n).length = w := by
  have hl := (Nat.length_toDigits_le_iff (b := 10) (by decide) hw).mpr h
  simp only [padded, List.length_append, List.length_replicate]
  omega

theorem digitsValue_padded (w n : Nat) : digitsValue (padded w n) = n := by
  have h := Nat.ofDigitChars_append (b := 10) (m := Nat.toDigits 10 n)
    (l := List.replicate (w - (Nat.toDigits 10 n).length) '0') 0
  rw [Nat.ofDigitChars_replicate_zero, Nat.mul_zero, Nat.ofDigitChars_ten_toDigits] at h
  rwa [Nat.ofDigitChars_eq_foldl] at h

end Moment

namespace Calendar
open Reader Moment

/-- What a reader of all digits may leave: a text that starts with no digit. -/
def NoDigitFirst (cs : List Char) : Prop := ∀ c ∈ cs.head?, c.isDigit = false

theorem digits_append {ds rest : List Char} (hd : ∀ c ∈ ds, c.isDigit = true)
    (hr : NoDigitFirst rest) : digits (ds ++ rest) = (ds, rest) := by
  rw [digits, List.span_eq_takeWhile_dropWhile, List.takeWhile_append_of_pos hd,
    List.dropWhile_append_of_pos hd]
  cases rest with
  | nil => simp
  | cons c cs =>
    have hc : c.isDigit = false := hr c rfl
    simp [hc]

theorem digits_padded {rest : List Char} (hr : NoDigitFirst rest) (w n : Nat) :
    digits (padded w n ++ rest) = (padded w n, rest) :=
  digits_append (fun _ => padded_isDigit) hr

theorem char_cons (c : Char) (rest : List Char) : char c (c :: rest) = some ((), rest) := by
  simp [char]

theorem char_eq_some {c : Char} {u : Unit} {cs rest : List Char}
    (h : char c cs = some (u, rest)) : cs = c :: rest := by
  cases cs with
  | nil => cases h
  | cons d cs =>
    rw [char] at h
    split at h
    · next hd =>
      cases h
      rw [hd]
    · cases h

theorem twoDigits_of_length {ds : List Char} (hd : ∀ c ∈ ds, c.isDigit = true)
    (hl : ds.length = 2) (rest : List Char) :
    twoDigits (ds ++ rest) = some (digitsValue ds, rest) := by
  match ds, hl with
  | [a, b], _ =>
    have ha : a.isDigit = true := hd a (by simp)
    have hb : b.isDigit = true := hd b (by simp)
    simp [twoDigits, digit, ha, hb, digitsValue]

theorem fourDigits_of_length {ds : List Char} (hd : ∀ c ∈ ds, c.isDigit = true)
    (hl : ds.length = 4) (rest : List Char) :
    fourDigits (ds ++ rest) = some (digitsValue ds, rest) := by
  match ds, hl with
  | [a, b, c, d], _ =>
    have hab : ∀ x ∈ [a, b], x.isDigit = true := fun x hx => hd x (by grind)
    have hcd : ∀ x ∈ [c, d], x.isDigit = true := fun x hx => hd x (by grind)
    have hv : digitsValue [a, b, c, d] = 100 * digitsValue [a, b] + digitsValue [c, d] := by
      simp only [digitsValue, List.foldl_cons, List.foldl_nil]
      omega
    have h₁ : twoDigits ([a, b, c, d] ++ rest) = some (digitsValue [a, b], [c, d] ++ rest) :=
      twoDigits_of_length hab rfl ([c, d] ++ rest)
    have h₂ := twoDigits_of_length hcd rfl rest
    simp only [fourDigits, h₁, h₂, hv, Option.bind_eq_bind, Option.bind_some, Option.pure_def]

theorem twoDigits_padded {n : Nat} (h : n < 100) (rest : List Char) :
    twoDigits (padded 2 n ++ rest) = some (n, rest) := by
  rw [twoDigits_of_length (fun _ => padded_isDigit) (padded_length (by decide) h),
    digitsValue_padded]

theorem fourDigits_padded {n : Nat} (h : n < 10000) (rest : List Char) :
    fourDigits (padded 4 n ++ rest) = some (n, rest) := by
  rw [fourDigits_of_length (fun _ => padded_isDigit) (padded_length (by decide) h),
    digitsValue_padded]

theorem not_isBlank_of_isDigit {c : Char} (h : c.isDigit = true) : isBlank c = false := by
  simp only [Char.isDigit, Bool.and_eq_true, decide_eq_true_eq] at h
  have h0 : 48 ≤ c.toNat := h.1
  have h9 : c.toNat ≤ 57 := h.2
  simp only [isBlank, blankRanges, List.any_cons, List.any_nil, Bool.or_false,
    Bool.or_eq_false_iff, Bool.and_eq_false_iff, decide_eq_false_iff_not]
  omega

theorem skipBlanks_digit {c : Char} (h : c.isDigit = true) (cs : List Char) :
    skipBlanks (c :: cs) = c :: cs := by
  simp [skipBlanks, not_isBlank_of_isDigit h]

theorem skipBlanks_padded (w n : Nat) (rest : List Char) :
    skipBlanks (padded w n ++ rest) = padded w n ++ rest := by
  obtain ⟨c, cs, hc⟩ := List.exists_cons_of_ne_nil (padded_ne_nil w n)
  have hd : c.isDigit = true := padded_isDigit (hc ▸ List.mem_cons_self)
  rw [hc, List.cons_append, skipBlanks_digit hd]

theorem upTo_of_length {ds : List Char} {most : Nat} (hd : ∀ c ∈ ds, c.isDigit = true)
    (hl : ds.length = most) (hne : ds ≠ []) (rest : List Char) :
    upTo most (ds ++ rest) = some (digitsValue ds, rest) := by
  have htake : ((ds ++ rest).take most).takeWhile Char.isDigit = ds := by
    rw [List.take_left' hl]
    exact List.takeWhile_eq_self_iff.mpr hd
  simp [upTo, htake, hne]

theorem upTo_padded {w n : Nat} (hw : 0 < w) (h : n < 10 ^ w) (rest : List Char) :
    upTo w (padded w n ++ rest) = some (n, rest) := by
  rw [upTo_of_length (fun _ => padded_isDigit) (padded_length hw h) (padded_ne_nil w n),
    digitsValue_padded]

theorem looseNumber_padded {n : Nat} (h : n < 100) (rest : List Char) :
    looseNumber (padded 2 n ++ rest) = some (n, rest) := by
  rw [looseNumber, skipBlanks_padded, upTo_padded (by decide) h]

end Calendar
end ScanCriteria
