import ScanCriteria.Proofs.Calendar.Forms
import ScanCriteria.Proofs.Calendar.TextForm

/-!
# Reading instants

In documents a moment is read as an instant. That form takes a year with a sign and an offset in the
same text, so it reads back the text of every moment, those included that no other form accepts.
-/
namespace ScanCriteria

namespace Calendar
open Reader Moment

theorem blanksThen_cons {c : Char} (h : isBlank c = false) (rest : List Char) :
    blanksThen c (c :: rest) = some ((), rest) := by
  have hskip : skipBlanks (c :: rest) = c :: rest := by simp [skipBlanks, h]
  rw [blanksThen, hskip, char_cons]

theorem read_bind {α β : Type} {r : Option (α × List Char)} {f : α × List Char → Option β} {a : α}
    {rest : List Char} (h : r = some (a, rest)) : (r >>= f) = f (a, rest) := by
  rw [h, Option.bind_eq_bind, Option.bind_some]

theorem looseYear_yearText {y : Int} {rest : List Char} (hr : NoDigitFirst rest) :
    looseYear (yearText y ++ rest) = some (y, rest) := by
  by_cases hy : 0 ≤ y ∧ y ≤ 9999
  · have he : (y.natAbs : Int) = y := by omega
    rw [looseYear_of_fourDigits (fourDigits_yearText hy rest), he]
  · exact looseYear_signed hy hr

/-- A colon separates hours from minutes in the loose offset too. -/
theorem offset_of_strict {cs rest : List Char} {o : Int}
    (h : offset (char ':') cs = some (o, rest)) : offset colonsAndBlanks cs = some (o, rest) := by
  simp only [offset, Option.bind_eq_bind, Option.bind_eq_some_iff, Option.pure_def] at h
  obtain ⟨⟨sign, c₁⟩, hsign, ⟨hours, c₂⟩, hhours, ⟨_, c₃⟩, hcolon, ⟨minutes, c₄⟩, hminutes, hlt⟩ :=
    h
  obtain rfl := char_eq_some hcolon
  obtain ⟨a, b, hd, rfl, -⟩ := twoDigits_eq_some hminutes
  have ha : a.isDigit = true := hd a List.mem_cons_self
  have hne : a ≠ ':' := by
    rintro rfl
    cases ha
  have hsep : colonsAndBlanks (':' :: ([a, b] ++ c₄)) = some ((), [a, b] ++ c₄) := by
    simp [colonsAndBlanks, not_isBlank_of_isDigit ha, hne]
  simp only [offset, hsign, hhours, hsep, hminutes, Option.bind_eq_bind, Option.bind_some,
    Option.pure_def]
  exact hlt

theorem utcName_cons {c : Char} (h : c.toUpper ≠ 'U') (cs : List Char) :
    utcName (c :: cs) = none := by
  rcases cs with _ | ⟨t, _ | ⟨d, cs⟩⟩
  · rfl
  · rfl
  · simp [utcName, h]

/-- A sign is neither a blank nor the first letter of `UTC`. -/
theorem instantOffset_of_sign {c : Char} (hc : c = '+' ∨ c = '-') {cs rest : List Char} {o : Int}
    (h : offset (char ':') (c :: cs) = some (o, rest)) :
    (utcName (skipBlanks (c :: cs)) <|> zuluOrOffset colonsAndBlanks (skipBlanks (c :: cs))) =
      some (o, rest) := by
  have hblank : isBlank c = false := by obtain rfl | rfl := hc <;> decide
  have hupper : c.toUpper ≠ 'U' := by obtain rfl | rfl := hc <;> decide
  have hoffset : zuluOrOffset colonsAndBlanks (c :: cs) = offset colonsAndBlanks (c :: cs) := by
    obtain rfl | rfl := hc <;> rfl
  have hskip : skipBlanks (c :: cs) = c :: cs := by simp [skipBlanks, hblank]
  rw [hskip, utcName_cons hupper, hoffset, offset_of_strict h]
  rfl

theorem instantOffset_offsetText {o : Int} (h : -1440 < o ∧ o < 1440) :
    (utcName (skipBlanks (offsetText o)) <|>
      zuluOrOffset colonsAndBlanks (skipBlanks (offsetText o))) = some (o, []) := by
  by_cases h0 : o = 0
  · subst h0
    decide
  · have hread := offset_written h0 h
    rw [offsetText, if_neg h0] at hread ⊢
    apply instantOffset_of_sign _ hread
    split
    · exact .inr rfl
    · exact .inl rfl

end Calendar

namespace MomentParts
open Calendar Reader Moment

theorem Dated.instantForm_chars {p : MomentParts} (h : p.Dated) :
    instantForm p.chars = some (ofParts? p, []) := by
  obtain ⟨hm, hd, hh, hmi, -, -, -, ho⟩ := h.bounds
  have hdash (cs : List Char) : NoDigitFirst ('-' :: cs) := by
    intro c hc
    cases hc
    decide
  have hblank : isBlank '-' = false := by decide
  have hblank' : isBlank ':' = false := by decide
  have hf := p.fraction_written (noFractionFirst_offsetText p.offset)
  have hparts : (some (parts (p.year, p.month, p.day) p.hour p.minute p.writtenSecond
      (p.nanos % nanosPerSecond) p.offset, skipBlanks []) : Option (Option Moment × List Char)) =
        some (ofParts? p, []) := by
    rw [h.parts_eq]
    rfl
  rw [chars_eq, charsWith]
  exact (read_bind (looseYear_yearText (hdash _))).trans <|
    (read_bind (blanksThen_cons hblank _)).trans <|
    (read_bind (looseNumber_padded hm _)).trans <|
    (read_bind (blanksThen_cons hblank _)).trans <|
    (read_bind (looseNumber_padded hd _)).trans <|
    (read_bind rfl).trans <|
    (read_bind (looseNumber_padded hh _)).trans <|
    (read_bind (blanksThen_cons hblank' _)).trans <|
    (read_bind (looseNumber_padded hmi _)).trans <|
    (read_bind (blanksThen_cons hblank' _)).trans <|
    (read_bind (looseNumber_padded h.writtenSecond_lt _)).trans <|
    (read_bind hf).trans <|
    (read_bind (instantOffset_offsetText ho)).trans hparts

end MomentParts

/-- The text of a moment is read back as an instant, whatever its year and its offset. -/
theorem Moment.readInstant?_text (a : Moment) : readInstant? a.text = some a := by
  rw [readInstant?, text, MomentParts.text, String.toList_ofList, Calendar.ofForm?_eq_some_iff,
    a.dated.instantForm_chars, a.ofParts?_toMomentParts]

end ScanCriteria
