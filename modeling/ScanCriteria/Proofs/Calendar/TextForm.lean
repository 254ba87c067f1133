import ScanCriteria.Proofs.Calendar.Digits
import ScanCriteria.Proofs.Calendar.Range

/-!
# Reading the written form of a date

`Moment.read?` takes the text of a date back to the date, unless its year needs a sign and its
offset is not zero; then no form accepts the text. With a year of four digits the text is in the
strict form. A signed year is taken by loose forms only, and of these the one that reads seconds
reads no offset.
-/
namespace ScanCriteria

namespace Calendar
open Reader Moment

theorem offset_padded {c : Char} {sign : Int} (hs : ∀ cs, offsetSign (c :: cs) = some (sign, cs))
    {n : Nat} (hn : n < 6000) :
    offset (char ':') (c :: (padded 2 (n / 60) ++ ':' :: padded 2 (n % 60))) =
      some (sign * n, []) := by
  have hhour : n / 60 < 100 := by omega
  have hmin : n % 60 < 100 := by omega
  have hrest := twoDigits_padded hmin []
  rw [List.append_nil] at hrest
  have hlt : n % 60 < 60 := Nat.mod_lt n (by decide)
  simp only [offset, hs, Option.bind_eq_bind, Option.bind_some, twoDigits_padded hhour, char_cons,
    hrest, if_pos hlt, Nat.div_add_mod]
  rfl

theorem offset_written {o : Int} (h0 : o ≠ 0) (h : -1440 < o ∧ o < 1440) :
    offset (char ':') (offsetText o) = some (o, []) := by
  have hlt : o.natAbs < 6000 := by omega
  rw [offsetText, if_neg h0]
  by_cases hn : o < 0
  · have he : -1 * (o.natAbs : Int) = o := by omega
    rw [if_pos hn, offset_padded (fun _ => rfl) hlt, he]
  · have he : 1 * (o.natAbs : Int) = o := by omega
    rw [if_neg hn, offset_padded (fun _ => rfl) hlt, he]

theorem zuluOrOffset_offsetText {o : Int} (h : -1440 < o ∧ o < 1440) :
    zuluOrOffset (char ':') (offsetText o) = some (o, []) := by
  by_cases h0 : o = 0
  · simp [offsetText, zuluOrOffset, h0]
  · rw [← offset_written h0 h]
    by_cases hn : o < 0 <;> simp [offsetText, zuluOrOffset, h0, hn]

/-- What may stand behind a fraction. -/
def NoFractionFirst (cs : List Char) : Prop := ∀ c ∈ cs.head?, c.isDigit = false ∧ c ≠ '.'

theorem noFractionFirst_offsetText (o : Int) : NoFractionFirst (offsetText o) := by
  intro c hc
  by_cases h0 : o = 0
  · simp only [offsetText, h0, if_true, List.head?_cons, Option.mem_some_iff] at hc
    subst hc
    decide
  · simp only [offsetText, h0, if_false, List.head?_cons, Option.mem_some_iff] at hc
    by_cases hn : o < 0
    · rw [if_pos hn] at hc
      subst hc
      decide
    · rw [if_neg hn] at hc
      subst hc
      decide

theorem nanosOfDigits_padded {k m : Nat} (hk : 0 < k) (hk9 : k ≤ 9) (h : m < 10 ^ k) :
    nanosOfDigits (padded k m) = m * 10 ^ (9 - k) := by
  have hl := padded_length hk h
  have ht : (padded k m).take 9 = padded k m := List.take_of_length_le (by omega)
  simp only [nanosOfDigits, ht, hl, digitsValue_padded]
  rfl

theorem optionalFraction_padded {k m : Nat} (hk : 0 < k) (hk9 : k ≤ 9) (h : m < 10 ^ k)
    {rest : List Char} (hr : NoFractionFirst rest) :
    optionalFraction ('.' :: (padded k m ++ rest)) = some (m * 10 ^ (9 - k), rest) := by
  have hd := digits_padded (fun c hc => (hr c hc).1) k m
  obtain ⟨c, cs, hc⟩ := List.exists_cons_of_ne_nil (padded_ne_nil k m)
  rw [← nanosOfDigits_padded hk hk9 h]
  simp only [optionalFraction, hd]
  rw [hc]

theorem optionalFraction_fractionText {n : Nat} (hn : n < nanosPerSecond) {rest : List Char}
    (hr : NoFractionFirst rest) : optionalFraction (fractionText n ++ rest) = some (n, rest) := by
  rw [nanosPerSecond] at hn
  unfold fractionText
  split
  · next h0 =>
    subst h0
    cases rest with
    | nil => rfl
    | cons c cs =>
      have hc : c ≠ '.' := (hr c rfl).2
      simp [optionalFraction, hc]
  · split
    · rw [List.cons_append, optionalFraction_padded (by decide) (by decide) (by omega) hr]
      simp only [Option.some.injEq, Prod.mk.injEq, and_true]
      omega
    · split
      · rw [List.cons_append, optionalFraction_padded (by decide) (by decide) (by omega) hr]
        simp only [Option.some.injEq, Prod.mk.injEq, and_true]
        omega
      · rw [List.cons_append, optionalFraction_padded (by decide) (by decide) (by omega) hr]
        simp

theorem fourDigits_yearText {y : Int} (h : 0 ≤ y ∧ y ≤ 9999) (rest : List Char) :
    fourDigits (yearText y ++ rest) = some (y.natAbs, rest) := by
  rw [yearText, if_pos h, fourDigits_padded]
  have := h.2
  omega

theorem fourDigits_signed {y : Int} (h : ¬(0 ≤ y ∧ y ≤ 9999)) (rest : List Char) :
    fourDigits (yearText y ++ rest) = none := by
  rw [yearText, if_neg h]
  by_cases hn : y < 0 <;> simp [hn, fourDigits, twoDigits, digit]

theorem looseYear_signed {y : Int} (h : ¬(0 ≤ y ∧ y ≤ 9999)) {rest : List Char}
    (hr : NoDigitFirst rest) : looseYear (yearText y ++ rest) = some (y, rest) := by
  have hd := digits_padded hr 4 y.natAbs
  have hv := digitsValue_padded 4 y.natAbs
  obtain ⟨c, cs, hc⟩ := List.exists_cons_of_ne_nil (padded_ne_nil 4 y.natAbs)
  rw [yearText, if_neg h]
  rw [hc] at hd hv
  by_cases hn : y < 0
  · have hb : skipBlanks ('-' :: (c :: cs ++ rest)) = '-' :: (c :: cs ++ rest) := by
      have : isBlank '-' = false := by decide
      simp [skipBlanks, this]
    have he : -(y.natAbs : Int) = y := by omega
    simp only [hn, if_true, hc, List.cons_append] at hb hd ⊢
    simp only [looseYear, hb, hd, hv, he]
  · have hb : skipBlanks ('+' :: (c :: cs ++ rest)) = '+' :: (c :: cs ++ rest) := by
      have : isBlank '+' = false := by decide
      simp [skipBlanks, this]
    have he : (y.natAbs : Int) = y := by omega
    simp only [hn, if_false, hc, List.cons_append] at hb hd ⊢
    simp only [looseYear, hb, hd, hv, he]

end Calendar

namespace MomentParts
open Calendar Reader Moment

/-- The written form with `tail` in the place of the offset. -/
def charsWith (p : MomentParts) (tail : List Char) : List Char :=
  yearText p.year ++ '-' :: (padded 2 p.month ++ '-' :: (padded 2 p.day ++ 'T' ::
    (padded 2 p.hour ++ ':' :: (padded 2 p.minute ++ ':' ::
      (padded 2 p.writtenSecond ++ (fractionText (p.nanos % nanosPerSecond) ++ tail))))))

theorem chars_eq (p : MomentParts) : p.chars = p.charsWith (offsetText p.offset) := by
  simp only [chars, charsWith, List.append_assoc, List.cons_append]

theorem charsWith_eq_append (p : MomentParts) (tail : List Char) :
    p.charsWith tail = p.charsWith [] ++ tail := by
  simp only [charsWith, List.append_assoc, List.cons_append, List.append_nil]

theorem fraction_written (p : MomentParts) {tail : List Char} (ht : NoFractionFirst tail) :
    optionalFraction (fractionText (p.nanos % nanosPerSecond) ++ tail)
      = some (p.nanos % nanosPerSecond, tail) :=
  optionalFraction_fractionText (Nat.mod_lt _ (by decide)) ht

variable {p : MomentParts} (h : p.Dated)
include h

theorem Dated.bounds :
    p.month < 100 ∧ p.day < 100 ∧ p.hour < 100 ∧ p.minute < 100 ∧ p.second < 60 ∧
      p.nanos < 2 * nanosPerSecond ∧ (nanosPerSecond ≤ p.nanos → p.second = 59) ∧
      (-1440 < p.offset ∧ p.offset < 1440) := by
  obtain ⟨⟨-, hm⟩, ⟨-, hd⟩, hh, hmi, hs, hn, hl, ho, -⟩ := h
  have hdm : daysInMonth p.year p.month ≤ 31 := by
    unfold daysInMonth
    split <;> (try split) <;> omega
  refine ⟨by omega, by omega, by omega, by omega, hs, hn, hl, ho⟩

theorem Dated.parts_eq :
    parts (p.year, p.month, p.day) p.hour p.minute p.writtenSecond (p.nanos % nanosPerSecond)
      p.offset = ofParts? p := by
  obtain ⟨-, -, -, -, hs, hn, hl, -⟩ := h.bounds
  simp only [parts, writtenSecond, nanosPerSecond] at *
  by_cases hleap : 1000000000 ≤ p.nanos
  · have hsec := hl hleap
    have hq : p.nanos / 1000000000 = 1 := by omega
    have hr : p.nanos % 1000000000 + 1000000000 = p.nanos := by omega
    simp only [hsec, hq, hr, if_true]
    rw [← hsec]
  · have hq : p.nanos / 1000000000 = 0 := by omega
    have hr : p.nanos % 1000000000 = p.nanos := by omega
    have hne : ¬ p.second = 60 := by omega
    simp only [hq, hr, hne, if_false, Nat.add_zero]

theorem Dated.writtenSecond_lt : p.writtenSecond < 100 := by
  obtain ⟨-, -, -, -, hs, hn, -⟩ := h.bounds
  rw [nanosPerSecond] at hn
  rw [writtenSecond, nanosPerSecond]
  omega

theorem Dated.strict_chars (hy : 0 ≤ p.year ∧ p.year ≤ 9999) :
    strict p.chars = some (ofParts? p, []) := by
  obtain ⟨hm, hd, hh, hmi, -, -, -, ho⟩ := h.bounds
  have he : (p.year.natAbs : Int) = p.year := by omega
  have hf := p.fraction_written (noFractionFirst_offsetText p.offset)
  simp only [strict, strictDate, dateTimeMark, chars_eq, charsWith, Option.bind_eq_bind,
    Option.pure_def, Option.bind_some, true_or, if_true, char_cons, fourDigits_yearText hy,
    twoDigits_padded hm, twoDigits_padded hd, twoDigits_padded hh, twoDigits_padded hmi,
    twoDigits_padded h.writtenSecond_lt, hf, zuluOrOffset_offsetText ho, he, h.parts_eq]

section Signed

variable (hy : ¬(0 ≤ p.year ∧ p.year ≤ 9999))
include hy

omit h in
theorem strict_signed (tail : List Char) : strict (p.charsWith tail) = none := by
  simp only [strict, strictDate, charsWith, fourDigits_signed hy, Option.bind_eq_bind,
    Option.bind_none]

theorem Dated.looseDate_signed (tail : List Char) :
    looseDate (yearText p.year ++ '-' :: (padded 2 p.month ++ '-' :: (padded 2 p.day ++ tail)))
      = some ((p.year, p.month, p.day), tail) := by
  obtain ⟨hm, hd, -⟩ := h.bounds
  have hdash (cs : List Char) : NoDigitFirst ('-' :: cs) := by
    intro c hc
    cases hc
    decide
  simp only [looseDate, Option.bind_eq_bind, Option.pure_def, Option.bind_some, char_cons,
    looseYear_signed hy (hdash _), looseNumber_padded hm, looseNumber_padded hd]

theorem Dated.looseMinute_signed (tail : List Char) :
    looseMinute (p.charsWith tail) = some (((p.year, p.month, p.day), p.hour, p.minute),
      ':' :: (padded 2 p.writtenSecond ++
        (fractionText (p.nanos % nanosPerSecond) ++ tail))) := by
  obtain ⟨-, -, hh, hmi, -⟩ := h.bounds
  simp only [looseMinute, charsWith, Option.bind_eq_bind, Option.pure_def, Option.bind_some,
    char_cons, h.looseDate_signed hy, looseNumber_padded hh, looseNumber_padded hmi]

/-- The colon before the seconds is no offset. -/
theorem Dated.minuteWithOffset_signed (tail : List Char) :
    minuteWithOffset (p.charsWith tail) = none := by
  have hb (cs : List Char) : skipBlanks (':' :: cs) = ':' :: cs := by
    have : isBlank ':' = false := by decide
    simp [skipBlanks, this]
  simp [minuteWithOffset, h.looseMinute_signed hy, hb, Calendar.offset, offsetSign]

theorem Dated.utcSecond_signed {tail : List Char} (ht : NoFractionFirst tail) :
    ∃ r, utcSecond (p.charsWith tail) = some (r, tail) ∧ (p.offset = 0 → r = ofParts? p) := by
  refine ⟨parts (p.year, p.month, p.day) p.hour p.minute p.writtenSecond
    (p.nanos % nanosPerSecond) 0, ?_, fun hz => hz ▸ h.parts_eq⟩
  simp only [utcSecond, h.looseMinute_signed hy, Option.bind_eq_bind, Option.pure_def,
    Option.bind_some, char_cons, looseNumber_padded h.writtenSecond_lt, p.fraction_written ht]

theorem Dated.utcMinute_signed (tail : List Char) : utcMinute.all (p.charsWith tail) = none := by
  simp [Reader.all, utcMinute, h.looseMinute_signed hy]

theorem Dated.bareDay_signed (tail : List Char) : bareDay.all (p.charsWith tail) = none := by
  simp [Reader.all, bareDay, charsWith, h.looseDate_signed hy]

end Signed

omit h in
theorem withoutZulu_append (cs : List Char) : withoutZulu (cs ++ ['Z']) = cs := by
  simp [withoutZulu]

omit h in
theorem withoutZulu_offset {o : Int} (ho : o ≠ 0) (cs : List Char) :
    withoutZulu (cs ++ offsetText o) = cs ++ offsetText o := by
  obtain ⟨init, hi⟩ : ∃ init, offsetText o = init ++ padded 2 (o.natAbs % 60) := by
    rw [offsetText, if_neg ho]
    exact ⟨(if o < 0 then '-' else '+') :: (padded 2 (o.natAbs / 60) ++ [':']), by simp⟩
  have hl : (cs ++ offsetText o).getLast? ≠ some 'Z' := by
    intro hz
    have hn := padded_ne_nil 2 (o.natAbs % 60)
    rw [hi, ← List.append_assoc, List.getLast?_append, List.getLast?_eq_some_getLast hn,
      Option.some_or] at hz
    have hd := padded_isDigit (List.getLast_mem hn)
    rw [Option.some.inj hz] at hd
    exact absurd hd (by decide)
  rw [withoutZulu, if_neg hl]

/-- A signed year without a readable offset is refused by every form. -/
theorem Dated.readChars?_signed (hy : ¬(0 ≤ p.year ∧ p.year ≤ 9999)) :
    readChars? p.chars = if p.offset = 0 then ofParts? p else none := by
  rw [p.chars_eq]
  by_cases ho : p.offset = 0
  · have hz : withoutZulu (p.charsWith ['Z']) = p.charsWith [] := by
      rw [charsWith_eq_append, withoutZulu_append]
    have hn : NoFractionFirst [] := by simp [NoFractionFirst]
    have hvalid : ofParts? p = some ⟨p, h.valid (.inr ho)⟩ := dif_pos _
    obtain ⟨r, hr, ha⟩ := h.utcSecond_signed hy hn
    rw [ha ho, hvalid] at hr
    simp [readChars?, ofForm?, Reader.all, ho, offsetText, strict_signed hy,
      h.minuteWithOffset_signed hy, hz, hr, hvalid]
  · have hz : withoutZulu (p.charsWith (offsetText p.offset)) =
        p.charsWith (offsetText p.offset) := by
      rw [charsWith_eq_append, withoutZulu_offset ho]
    obtain ⟨r, hr, -⟩ := h.utcSecond_signed hy (noFractionFirst_offsetText p.offset)
    have hs : utcSecond.all (p.charsWith (offsetText p.offset)) = none := by
      obtain ⟨c, cs, hc⟩ : ∃ c cs, offsetText p.offset = c :: cs := by simp [offsetText, ho]
      rw [Reader.all, hr, hc]
    have h₁ : strict.all (p.charsWith (offsetText p.offset)) = none := by
      rw [Reader.all, strict_signed hy]
    have h₂ : minuteWithOffset.all (p.charsWith (offsetText p.offset)) = none := by
      rw [Reader.all, h.minuteWithOffset_signed hy]
    simp [readChars?, ofForm?, h₁, h₂, hs, hz, h.utcMinute_signed hy, h.bareDay_signed hy, ho]

/-- The text of a date is read as that date or not at all. -/
theorem Dated.read?_text : read? p.text = if p.Readable then ofParts? p else none := by
  rw [read?, text, String.toList_ofList]
  by_cases hy : 0 ≤ p.year ∧ p.year ≤ 9999
  · have hvalid : ofParts? p = some ⟨p, h.valid (.inl hy)⟩ := dif_pos _
    simp [readChars?, ofForm?, Reader.all, h.strict_chars hy, Readable, hy, hvalid]
  · simp [h.readChars?_signed hy, Readable, hy]

/-- A date with a year of four digits or in UTC is read back with all of its parts; the text of any
other date is refused. So the texts of two such dates differ, and reading leaves a text as it is. -/
theorem text_exact :
    (p.Readable → ∃ a : Moment, read? p.text = some a ∧ a.toMomentParts = p ∧ a.text = p.text) ∧
      (¬p.Readable → read? p.text = none) ∧
      ∀ q : MomentParts, q.Dated → p.Readable → q.Readable → p.text = q.text → p = q := by
  have hread {q : MomentParts} (hq : q.Dated) (hr : q.Readable) :
      read? q.text = some ⟨q, hq.valid hr⟩ := by
    rw [hq.read?_text, if_pos hr]
    exact dif_pos _
  refine ⟨fun hr => ⟨_, hread h hr, rfl, rfl⟩, fun hr => ?_, fun q hq hp hr htext => ?_⟩
  · rw [h.read?_text, if_neg hr]
  · have hsame := (hread h hp).symm.trans (htext ▸ hread hq hr)
    exact congrArg Moment.toMomentParts (Option.some.inj hsame)

omit h in
/-- Half a second into a leap second, five and a half hours east of UTC. -/
theorem text_exact_leapSecond :
    let p : MomentParts := ⟨2017, 1, 1, 5, 29, 59, 1500000000, 330⟩
    p.Dated ∧ p.Readable ∧ p.text = "2017-01-01T05:29:60.500+05:30" ∧
      ∃ a : Moment, read? p.text = some a ∧ a.toMomentParts = p := by
  intro p
  have hd : p.Dated := by decide +kernel
  have hr : p.Readable := by decide
  obtain ⟨a, ha, hp, -⟩ := (text_exact hd).1 hr
  exact ⟨hd, hr, by decide +kernel, a, ha, hp⟩

end MomentParts

namespace Moment

theorem dated (a : Moment) : a.Dated := (MomentParts.valid_iff.mp a.valid).2

/-- A moment whose text can be read: its year has four digits, or it is in UTC. -/
def Readable (a : Moment) : Prop := (0 ≤ a.year ∧ a.year ≤ 9999) ∨ a.offset = 0

instance (a : Moment) : Decidable a.Readable := inferInstanceAs (Decidable (_ ∨ _))

theorem read?_text (a : Moment) : read? a.text = if a.Readable then some a else none := by
  rw [← a.ofParts?_toMomentParts]
  exact a.dated.read?_text

theorem read?_text_eq_some_iff {a b : Moment} : read? a.text = some b ↔ a.Readable ∧ b = a := by
  rw [read?_text]
  by_cases h : a.Readable <;> simp [h, eq_comm]

end Moment
end ScanCriteria
