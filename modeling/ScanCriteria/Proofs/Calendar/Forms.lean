import Mathlib.Data.List.Perm.Basic
import ScanCriteria.Proofs.Calendar.Digits

/-!
# The forms of a moment

Each of the five forms in which a moment may be given is an attempt of its own. They may be tried in
any order: what follows the day and the minutes of a text tells the forms apart, but for the strict
form with a `Z` and the form in UTC to the second, and these two read the same moment.
-/
namespace ScanCriteria

open Calendar Reader

inductive MomentForm where
  | strict | minuteWithOffset | utcSecond | utcMinute | bareDay
  deriving DecidableEq, Repr

namespace MomentForm

/-- The forms in the order in which they are tried. -/
def all : List MomentForm := [strict, minuteWithOffset, utcSecond, utcMinute, bareDay]

def readChars? : MomentForm → List Char → Option Moment
  | strict, cs => Moment.ofForm? Calendar.strict cs
  | minuteWithOffset, cs => Moment.ofForm? Calendar.minuteWithOffset cs
  | utcSecond, cs => Moment.ofForm? Calendar.utcSecond (withoutZulu cs)
  | utcMinute, cs => Moment.ofForm? Calendar.utcMinute (withoutZulu cs)
  | bareDay, cs => Moment.ofForm? Calendar.bareDay cs

def read? (f : MomentForm) (s : String) : Option Moment := f.readChars? s.toList

/-- The moment of the first form that accepts the text. -/
def firstOf? (forms : List MomentForm) (s : String) : Option Moment := forms.findSome? (·.read? s)

theorem firstOf?_cons (f : MomentForm) (forms : List MomentForm) (s : String) :
    firstOf? (f :: forms) s = (f.read? s).or (firstOf? forms s) := by
  rw [firstOf?, List.findSome?_cons]
  cases f.read? s <;> rfl

theorem firstOf?_all (s : String) : firstOf? all s = Moment.read? s := by
  have hnil : firstOf? [] s = none := rfl
  simp only [all, firstOf?_cons, hnil, Option.or_none, read?, readChars?, Moment.read?,
    Moment.readChars?, Option.orElse_eq_orElse, Option.orElse_eq_or]

end MomentForm

namespace Calendar

variable {α β : Type} {r : Reader α} {cs rest : List Char}

theorem all_eq_some_iff {a : α} : r.all cs = some a ↔ r cs = some (a, []) := by
  unfold Reader.all
  split
  · next b h => simp [h]
  · next h =>
    simp only [reduceCtorEq, false_iff]
    exact h a

theorem ofForm?_eq_some_iff {form : Reader (Option Moment)} {a : Moment} :
    Moment.ofForm? form cs = some a ↔ form cs = some (some a, []) := by
  rw [Moment.ofForm?, Option.join_eq_some_iff, all_eq_some_iff]

theorem digit_eq_some {n : Nat} (h : digit cs = some (n, rest)) :
    ∃ c, c.isDigit = true ∧ cs = c :: rest ∧ digitsValue [c] = n := by
  cases cs with
  | nil => cases h
  | cons c cs =>
    rw [digit] at h
    split at h
    · next hc =>
      cases h
      exact ⟨c, hc, rfl, by simp [digitsValue]⟩
    · cases h

theorem twoDigits_eq_some {n : Nat} (h : twoDigits cs = some (n, rest)) :
    ∃ a b, (∀ c ∈ [a, b], c.isDigit = true) ∧ cs = [a, b] ++ rest ∧ digitsValue [a, b] = n := by
  simp only [twoDigits, Option.bind_eq_bind, Option.bind_eq_some_iff, Option.pure_def,
    Option.some.injEq, Prod.mk.injEq] at h
  obtain ⟨⟨m, cs'⟩, hm, ⟨k, cs''⟩, hk, rfl, rfl⟩ := h
  obtain ⟨a, ha, rfl, rfl⟩ := digit_eq_some hm
  obtain ⟨b, hb, rfl, rfl⟩ := digit_eq_some hk
  exact ⟨a, b, by simp [ha, hb], rfl, by simp [digitsValue]⟩

theorem fourDigits_eq_some {n : Nat} (h : fourDigits cs = some (n, rest)) :
    ∃ a b c d, (∀ x ∈ [a, b, c, d], x.isDigit = true) ∧ cs = [a, b, c, d] ++ rest ∧
      digitsValue [a, b, c, d] = n := by
  simp only [fourDigits, Option.bind_eq_bind, Option.bind_eq_some_iff, Option.pure_def,
    Option.some.injEq, Prod.mk.injEq] at h
  obtain ⟨⟨m, cs'⟩, hm, ⟨k, cs''⟩, hk, rfl, rfl⟩ := h
  obtain ⟨a, b, hab, rfl, rfl⟩ := twoDigits_eq_some hm
  obtain ⟨c, d, hcd, rfl, rfl⟩ := twoDigits_eq_some hk
  refine ⟨a, b, c, d, ?_, rfl, ?_⟩
  · simp_all
  · simp only [digitsValue, List.foldl_cons, List.foldl_nil]
    omega

/-- Two digits are a loose number. -/
theorem looseNumber_of_twoDigits {n : Nat} (h : twoDigits cs = some (n, rest)) :
    looseNumber cs = some (n, rest) := by
  obtain ⟨a, b, hd, rfl, rfl⟩ := twoDigits_eq_some h
  have hread : upTo 2 ([a, b] ++ rest) = some (digitsValue [a, b], rest) :=
    upTo_of_length hd rfl (List.cons_ne_nil _ _) rest
  rw [looseNumber, List.cons_append, skipBlanks_digit (hd a List.mem_cons_self)]
  exact hread

theorem looseYear_of_fourDigits {n : Nat} (h : fourDigits cs = some (n, rest)) :
    looseYear cs = some ((n : Int), rest) := by
  obtain ⟨a, b, c, d, hd, rfl, rfl⟩ := fourDigits_eq_some h
  have ha : a.isDigit = true := hd a List.mem_cons_self
  have hread : upTo 4 ([a, b, c, d] ++ rest) = some (digitsValue [a, b, c, d], rest) :=
    upTo_of_length hd rfl (List.cons_ne_nil _ _) rest
  have hplus : a ≠ '+' := by
    rintro rfl
    cases ha
  have hminus : a ≠ '-' := by
    rintro rfl
    cases ha
  simp only [List.cons_append, List.nil_append] at hread ⊢
  simp [looseYear, skipBlanks_digit ha, hread, hplus, hminus]

theorem looseDate_of_strictDate {date : Int × Nat × Nat} (h : strictDate cs = some (date, rest)) :
    looseDate cs = some (date, rest) := by
  simp only [strictDate, Option.bind_eq_bind, Option.bind_eq_some_iff, Option.pure_def,
    Option.some.injEq, Prod.mk.injEq] at h
  obtain ⟨⟨y, c₁⟩, hy, ⟨_, c₂⟩, hdash, ⟨m, c₃⟩, hm, ⟨_, c₄⟩, hdash', ⟨d, c₅⟩, hd, rfl, rfl⟩ := h
  simp only [looseDate, Option.bind_eq_bind, Option.bind_some, looseYear_of_fourDigits hy, hdash,
    looseNumber_of_twoDigits hm, hdash', looseNumber_of_twoDigits hd, Option.pure_def]

theorem digits_zulu (cs : List Char) :
    digits (cs ++ ['Z']) = ((digits cs).1, (digits cs).2 ++ ['Z']) := by
  induction cs with
  | nil => rfl
  | cons c cs ih =>
    simp only [digits, List.span_eq_takeWhile_dropWhile, List.cons_append, List.takeWhile_cons,
      List.dropWhile_cons, Prod.mk.injEq] at ih ⊢
    split
    · exact ⟨congrArg (c :: ·) ih.1, ih.2⟩
    · exact ⟨rfl, rfl⟩

theorem skipBlanks_zulu (cs : List Char) : skipBlanks (cs ++ ['Z']) = skipBlanks cs ++ ['Z'] := by
  induction cs with
  | nil => rfl
  | cons c cs ih =>
    simp only [skipBlanks, List.cons_append, List.dropWhile_cons] at ih ⊢
    split
    · exact ih
    · rfl

/-- What is read from a text is read from it before a `Z` as well, and the `Z` is left. -/
def LeavesZulu (r : Reader α) : Prop :=
  ∀ cs a rest, r cs = some (a, rest) → r (cs ++ ['Z']) = some (a, rest ++ ['Z'])

namespace LeavesZulu

theorem pure (a : α) : LeavesZulu fun cs => some (a, cs) := by
  rintro cs _ _ ⟨⟩
  rfl

theorem bind {f : α → Reader β} (hr : LeavesZulu r) (hf : ∀ a, LeavesZulu (f a)) :
    LeavesZulu fun cs => (r cs).bind fun x => f x.1 x.2 := by
  intro cs b rest h
  obtain ⟨⟨a, cs'⟩, ha, hb⟩ := Option.bind_eq_some_iff.mp h
  dsimp only
  rw [hr cs a cs' ha]
  exact hf a cs' b rest hb

theorem char {c : Char} : LeavesZulu (Reader.char c) := by
  intro cs u rest h
  cases cs with
  | nil => cases h
  | cons d cs =>
    rw [Reader.char] at h
    split at h
    · next hd =>
      cases h
      rw [List.cons_append, Reader.char, if_pos hd]
    · cases h

theorem upTo (most : Nat) : LeavesZulu (Calendar.upTo most) := by
  intro cs n rest h
  have hzulu (k : Nat) : (['Z'].take k).takeWhile Char.isDigit = [] := by
    cases k <;> simp
  have hdigits : ((cs ++ ['Z']).take most).takeWhile Char.isDigit =
      (cs.take most).takeWhile Char.isDigit := by
    rw [List.take_append, List.takeWhile_append, hzulu, List.append_nil]
    split
    · next hall => exact (List.IsPrefix.eq_of_length (List.takeWhile_prefix _) hall).symm
    · rfl
  have hle : ((cs.take most).takeWhile Char.isDigit).length ≤ cs.length :=
    (List.takeWhile_prefix _).length_le.trans (List.length_take_le' most cs)
  simp only [Calendar.upTo, hdigits] at h ⊢
  split at h
  · cases h
  · next hne =>
    cases h
    rw [if_neg hne, List.drop_append_of_le_length hle]

theorem looseNumber : LeavesZulu Calendar.looseNumber := by
  intro cs n rest h
  rw [Calendar.looseNumber, skipBlanks_zulu]
  exact upTo 2 _ _ _ h

/-- A run of digits that may not be empty. -/
theorem someDigits (f : List Char → α) :
    LeavesZulu fun cs => match digits cs with
      | ([], _) => none
      | (ds, rest) => some (f ds, rest) := by
  intro cs a rest h
  dsimp only at h ⊢
  rw [digits_zulu]
  generalize digits cs = r at h ⊢
  obtain ⟨_ | ⟨d, ds⟩, tail⟩ := r
  · cases h
  · cases h
    rfl

theorem looseYear : LeavesZulu Calendar.looseYear := by
  intro cs y rest h
  unfold Calendar.looseYear at h ⊢
  rw [skipBlanks_zulu]
  split at h
  · next tail hb =>
    rw [hb]
    exact someDigits (fun ds => (digitsValue ds : Int)) tail y rest h
  · next tail hb =>
    rw [hb]
    exact someDigits (fun ds => -(digitsValue ds : Int)) tail y rest h
  · next hplus hminus =>
    obtain ⟨⟨n, tail⟩, hn, hy⟩ := Option.map_eq_some_iff.mp h
    have hread := upTo 4 _ n tail hn
    cases hb : skipBlanks cs with
    | nil =>
      rw [hb] at hn
      cases hn
    | cons c cs' =>
      cases hy
      rw [hb] at hread
      simp_all

theorem optionalFraction : LeavesZulu Calendar.optionalFraction := by
  intro cs n rest h
  unfold Calendar.optionalFraction at h ⊢
  split at h
  · next tail => exact someDigits nanosOfDigits tail n rest h
  · next hpoint =>
    cases h
    cases cs with
    | nil => rfl
    | cons c cs => simp_all

/-- The pieces of the looser forms do not take a `Z`. -/
theorem looseDate : LeavesZulu Calendar.looseDate :=
  looseYear.bind fun y => char.bind fun _ => looseNumber.bind fun m => char.bind fun _ =>
    looseNumber.bind fun d => .pure (y, m, d)

theorem looseMinute : LeavesZulu Calendar.looseMinute :=
  looseDate.bind fun date => char.bind fun _ => looseNumber.bind fun h => char.bind fun _ =>
    looseNumber.bind fun m => .pure (date, h, m)

theorem utcSecond : LeavesZulu Calendar.utcSecond :=
  looseMinute.bind fun t => char.bind fun _ => looseNumber.bind fun s =>
    optionalFraction.bind fun n => .pure (parts t.1 t.2.1 t.2.2 s n 0)

theorem utcMinute : LeavesZulu Calendar.utcMinute :=
  looseMinute.bind fun t => .pure (parts t.1 t.2.1 t.2.2 0 0 0)

end LeavesZulu

/-- What a form accepts once a `Z` has been taken off the end, it reads before that `Z`. -/
theorem LeavesZulu.ofForm?_withoutZulu {form : Reader (Option Moment)} (h : LeavesZulu form)
    {a : Moment} (ha : Moment.ofForm? form (withoutZulu cs) = some a) :
    form cs = some (some a, []) ∨ form cs = some (some a, ['Z']) ∧ cs.getLast? = some 'Z' := by
  rw [ofForm?_eq_some_iff] at ha
  by_cases hz : cs.getLast? = some 'Z'
  · obtain ⟨ds, rfl⟩ : ∃ ds, cs = ds ++ ['Z'] := List.getLast?_eq_some_iff.mp hz
    right
    rw [withoutZulu, if_pos hz, List.dropLast_concat] at ha
    exact ⟨h ds _ _ ha, hz⟩
  · left
    rwa [withoutZulu, if_neg hz] at ha

theorem dateTimeMark_eq_some {u : Unit} (h : dateTimeMark cs = some (u, rest)) :
    ∃ c, cs = c :: rest := by
  cases cs with
  | nil => cases h
  | cons c cs =>
    rw [dateTimeMark] at h
    split at h <;> cases h
    exact ⟨c, rfl⟩

/-- The strict form is a day, a mark and a time of day; with the mark `T` the loose form reads the
same up to the offset. -/
theorem strict_eq_some {m : Option Moment} (h : strict cs = some (m, rest)) :
    ∃ date mark cs', looseDate cs = some (date, mark :: cs') ∧
      (mark = 'T' → ∃ hour minute second nanos offset cs₁ cs₂,
        looseMinute cs = some ((date, hour, minute), ':' :: cs₁) ∧
        utcSecond cs = some (parts date hour minute second nanos 0, cs₂) ∧
        zuluOrOffset (char ':') cs₂ = some (offset, rest) ∧
        parts date hour minute second nanos offset = m) := by
  simp only [strict, Option.bind_eq_bind, Option.bind_eq_some_iff, Option.pure_def, Prod.exists,
    Option.some.injEq, Prod.mk.injEq] at h
  obtain ⟨year, month, day, c₁, hdate, _, c₂, hmark, hour, c₃, hhour, _, c₄, hcolon, minute, c₅,
    hminute, _, c₆, hcolon', second, c₇, hsecond, nanos, c₈, hnanos, offset, c₉, hoffset, rfl,
    rfl⟩ := h
  obtain ⟨mark, rfl⟩ := dateTimeMark_eq_some hmark
  have hday := looseDate_of_strictDate hdate
  refine ⟨(year, month, day), mark, c₂, hday, ?_⟩
  rintro rfl
  have hloose : looseMinute cs = some (((year, month, day), hour, minute), c₅) := by
    simp only [looseMinute, hday, char_cons, looseNumber_of_twoDigits hhour, hcolon,
      looseNumber_of_twoDigits hminute, Option.bind_eq_bind, Option.bind_some, Option.pure_def]
  obtain rfl := char_eq_some hcolon'
  refine ⟨hour, minute, second, nanos, offset, c₆, c₈, hloose, ?_, hoffset, rfl⟩
  simp only [utcSecond, hloose, hcolon', looseNumber_of_twoDigits hsecond, hnanos,
    Option.bind_eq_bind, Option.bind_some, Option.pure_def]

theorem looseMinute_eq_some {date : Int × Nat × Nat} {t : Nat × Nat}
    (h : looseMinute cs = some ((date, t), rest)) :
    ∃ cs', looseDate cs = some (date, 'T' :: cs') := by
  simp only [looseMinute, Option.bind_eq_bind, Option.bind_eq_some_iff, Option.pure_def] at h
  obtain ⟨⟨date', c₁⟩, hdate, ⟨_, c₂⟩, hmark, ⟨hour, c₃⟩, -, ⟨_, c₄⟩, -, ⟨minute, c₅⟩, -, ⟨⟩⟩ := h
  exact ⟨c₂, char_eq_some hmark ▸ hdate⟩

theorem utcSecond_eq_some {m : Option Moment} (h : utcSecond cs = some (m, rest)) :
    ∃ t cs', looseMinute cs = some (t, ':' :: cs') := by
  simp only [utcSecond, Option.bind_eq_bind, Option.bind_eq_some_iff] at h
  obtain ⟨⟨t, c₁⟩, ht, ⟨_, c₂⟩, hcolon, -⟩ := h
  exact ⟨t, c₂, char_eq_some hcolon ▸ ht⟩

theorem utcMinute_eq_some {m : Option Moment} (h : utcMinute cs = some (m, rest)) :
    ∃ t, looseMinute cs = some (t, rest) := by
  simp only [utcMinute, Option.bind_eq_bind, Option.bind_eq_some_iff, Option.pure_def] at h
  obtain ⟨⟨t, c₁⟩, ht, ⟨⟩⟩ := h
  exact ⟨t, ht⟩

theorem bareDay_eq_some {m : Option Moment} (h : bareDay cs = some (m, rest)) :
    ∃ date, looseDate cs = some (date, rest) := by
  simp only [bareDay, Option.bind_eq_bind, Option.bind_eq_some_iff, Option.pure_def] at h
  obtain ⟨⟨date, c₁⟩, hdate, ⟨⟩⟩ := h
  exact ⟨date, hdate⟩

theorem minuteWithOffset_eq_some {m : Option Moment} (h : minuteWithOffset cs = some (m, rest)) :
    ∃ t cs' o, looseMinute cs = some (t, cs') ∧
      offset colonsAndBlanks (skipBlanks cs') = some (o, rest) := by
  simp only [minuteWithOffset, Option.bind_eq_bind, Option.bind_eq_some_iff, Option.pure_def] at h
  obtain ⟨⟨t, c₁⟩, ht, ⟨o, c₂⟩, ho, ⟨⟩⟩ := h
  exact ⟨t, c₁, o, ht, ho⟩

/-- Where both forms read a text they read the same moment, and only a `Z` may follow what the form
without an offset takes. -/
theorem strict_utcSecond_agree {m m' : Option Moment} (hs : strict cs = some (m, []))
    (hu : utcSecond cs = some (m', rest)) (hrest : rest = [] ∨ rest = ['Z']) :
    m = m' ∧ rest = ['Z'] := by
  obtain ⟨date, mark, cs', hdate, hread⟩ := strict_eq_some hs
  obtain ⟨⟨date', t⟩, c₁, hminute⟩ := utcSecond_eq_some hu
  obtain ⟨c₂, hdate'⟩ := looseMinute_eq_some hminute
  obtain ⟨-, rfl, -⟩ : date = date' ∧ mark = 'T' ∧ cs' = c₂ := by
    simpa using hdate.symm.trans hdate'
  obtain ⟨hour, minute, second, nanos, offset, c₃, c₄, -, hutc, hoffset, rfl⟩ := hread rfl
  obtain ⟨rfl, rfl⟩ : parts date hour minute second nanos 0 = m' ∧ c₄ = rest := by
    simpa using hutc.symm.trans hu
  obtain rfl | rfl := hrest
  · cases hoffset
  · obtain rfl : 0 = offset := by simpa [zuluOrOffset] using hoffset
    exact ⟨rfl, rfl⟩

/-- What a text has after its day, or after hours and minutes if it has them. -/
inductive Ending where
  | nothingAfterDay | otherMark | nothingAfterMinute | second | offset
  deriving DecidableEq

/-- One `Z` counts for nothing. -/
def endingAfterMinute : List Char → Ending
  | [] | ['Z'] => .nothingAfterMinute
  | ':' :: _ => .second
  | _ => .offset

def ending? (cs : List Char) : Option Ending :=
  match looseMinute cs, looseDate cs with
  | some (_, rest), _ => some (endingAfterMinute rest)
  | none, some (_, []) => some .nothingAfterDay
  | none, some (_, _ :: _) => some .otherMark
  | none, none => none

theorem ending?_of_looseMinute {t : (Int × Nat × Nat) × Nat × Nat}
    (h : looseMinute cs = some (t, rest)) : ending? cs = some (endingAfterMinute rest) := by
  simp [ending?, h]

theorem looseMinute_eq_none {date : Int × Nat × Nat} (h : looseDate cs = some (date, rest))
    (hmark : ∀ cs', rest ≠ 'T' :: cs') : looseMinute cs = none := by
  cases hm : looseMinute cs with
  | none => rfl
  | some x =>
    obtain ⟨⟨date', t⟩, c₁⟩ := x
    obtain ⟨c₂, hdate⟩ := looseMinute_eq_some hm
    obtain ⟨-, rfl⟩ : date = date' ∧ rest = 'T' :: c₂ := by simpa using h.symm.trans hdate
    exact absurd rfl (hmark c₂)

theorem endingAfterMinute_of_offset {o : Int}
    (h : offset colonsAndBlanks (skipBlanks cs) = some (o, rest)) :
    endingAfterMinute cs = .offset := by
  have hcolon : isBlank ':' = false := by decide
  have hzulu : isBlank 'Z' = false := by decide
  unfold endingAfterMinute
  split
  · simp [skipBlanks, offset, offsetSign] at h
  · simp [skipBlanks, offset, offsetSign, hzulu] at h
  · simp [skipBlanks, offset, offsetSign, hcolon] at h
  · rfl

end Calendar

namespace MomentForm

/-- What the texts of a form may have after the day or the minutes. -/
def endings : MomentForm → List Ending
  | strict => [.otherMark, .second]
  | minuteWithOffset => [.offset]
  | utcSecond => [.second]
  | utcMinute => [.nothingAfterMinute]
  | bareDay => [.nothingAfterDay]

theorem ending?_of_strict {cs rest : List Char} {m : Option Moment}
    (h : Calendar.strict cs = some (m, rest)) :
    ending? cs = some .otherMark ∨ ending? cs = some .second := by
  obtain ⟨date, mark, cs', hdate, hread⟩ := strict_eq_some h
  by_cases hmark : mark = 'T'
  · obtain ⟨hour, minute, second, nanos, offset, c₁, c₂, hminute, -⟩ := hread hmark
    exact .inr (ending?_of_looseMinute hminute)
  · have hnone := looseMinute_eq_none hdate (by simp [hmark])
    left
    simp only [ending?, hnone, hdate]

theorem ending?_of_readChars? {f : MomentForm} {cs : List Char} {a : Moment}
    (h : f.readChars? cs = some a) : ∃ e ∈ f.endings, ending? cs = some e := by
  cases f with
  | strict =>
    rw [readChars?, ofForm?_eq_some_iff] at h
    obtain he | he := ending?_of_strict h
    · exact ⟨_, by simp [endings], he⟩
    · exact ⟨_, by simp [endings], he⟩
  | minuteWithOffset =>
    rw [readChars?, ofForm?_eq_some_iff] at h
    obtain ⟨t, cs', o, hminute, ho⟩ := minuteWithOffset_eq_some h
    exact ⟨_, by simp [endings], endingAfterMinute_of_offset ho ▸ ending?_of_looseMinute hminute⟩
  | utcSecond =>
    obtain h | ⟨h, -⟩ := LeavesZulu.utcSecond.ofForm?_withoutZulu h
    all_goals
      obtain ⟨t, cs', hminute⟩ := utcSecond_eq_some h
      exact ⟨_, List.mem_singleton_self _, ending?_of_looseMinute hminute⟩
  | utcMinute =>
    obtain h | ⟨h, -⟩ := LeavesZulu.utcMinute.ofForm?_withoutZulu h
    all_goals
      obtain ⟨t, hminute⟩ := utcMinute_eq_some h
      exact ⟨_, List.mem_singleton_self _, ending?_of_looseMinute hminute⟩
  | bareDay =>
    rw [readChars?, ofForm?_eq_some_iff] at h
    obtain ⟨date, hdate⟩ := bareDay_eq_some h
    have hnone := looseMinute_eq_none hdate nofun
    exact ⟨_, List.mem_singleton_self _, by simp only [ending?, hnone, hdate]⟩

/-- Only the strict form and the one in UTC to the second have an ending in common. -/
theorem overlap_of_ending {f g : MomentForm} {e : Ending} (hf : e ∈ f.endings)
    (hg : e ∈ g.endings) : f = g ∨ f = strict ∧ g = utcSecond ∨ f = utcSecond ∧ g = strict := by
  cases f <;> cases g <;> simp_all [endings]

theorem strict_utcSecond {cs : List Char} {a b : Moment} (ha : strict.readChars? cs = some a)
    (hb : utcSecond.readChars? cs = some b) : a = b ∧ cs.getLast? = some 'Z' := by
  rw [readChars?, ofForm?_eq_some_iff] at ha
  obtain h | ⟨h, hz⟩ := LeavesZulu.utcSecond.ofForm?_withoutZulu hb
  · obtain ⟨-, hrest⟩ := strict_utcSecond_agree ha h (.inl rfl)
    cases hrest
  · obtain ⟨hab, -⟩ := strict_utcSecond_agree ha h (.inr rfl)
    exact ⟨Option.some.inj hab, hz⟩

/-- Two forms that accept the same text are the strict form, with a `Z`, and that in UTC to the
second. -/
theorem overlap {f g : MomentForm} {cs : List Char} {a b : Moment} (hne : f ≠ g)
    (ha : f.readChars? cs = some a) (hb : g.readChars? cs = some b) :
    (f = strict ∧ g = utcSecond ∨ f = utcSecond ∧ g = strict) ∧ cs.getLast? = some 'Z' := by
  obtain ⟨e, hf, he⟩ := ending?_of_readChars? ha
  obtain ⟨e', hg, he'⟩ := ending?_of_readChars? hb
  obtain rfl : e = e' := Option.some.inj (he.symm.trans he')
  obtain hfg | ⟨rfl, rfl⟩ | ⟨rfl, rfl⟩ := overlap_of_ending hf hg
  · exact absurd hfg hne
  · exact ⟨.inl ⟨rfl, rfl⟩, (strict_utcSecond ha hb).2⟩
  · exact ⟨.inr ⟨rfl, rfl⟩, (strict_utcSecond hb ha).2⟩

theorem agree {f g : MomentForm} {cs : List Char} {a b : Moment}
    (ha : f.readChars? cs = some a) (hb : g.readChars? cs = some b) : a = b := by
  by_cases hfg : f = g
  · subst hfg
    exact Option.some.inj (ha.symm.trans hb)
  · obtain ⟨⟨rfl, rfl⟩ | ⟨rfl, rfl⟩, -⟩ := overlap hfg ha hb
    · exact (strict_utcSecond ha hb).1
    · exact (strict_utcSecond hb ha).1.symm

theorem firstOf?_eq_some_iff {forms : List MomentForm} {s : String} {a : Moment} :
    firstOf? forms s = some a ↔ ∃ f ∈ forms, f.read? s = some a := by
  constructor
  · intro h
    obtain ⟨f, hf, ha⟩ := List.exists_of_findSome?_eq_some h
    exact ⟨f, hf, ha⟩
  · rintro ⟨f, hf, ha⟩
    cases h : firstOf? forms s with
    | none =>
      have hnone := List.findSome?_eq_none_iff.mp h f hf
      rw [ha] at hnone
      cases hnone
    | some b =>
      obtain ⟨g, -, hb⟩ := List.exists_of_findSome?_eq_some h
      rw [agree ha hb]

theorem firstOf?_perm {forms forms' : List MomentForm} (h : forms.Perm forms') (s : String) :
    firstOf? forms s = firstOf? forms' s := by
  ext a
  simp only [firstOf?_eq_some_iff, h.mem_iff]

/-- Two forms that accept the same text read the same moment from it, offset included, and but for
the strict form with a `Z` no text has two forms. So the order in which they are tried does not
matter. -/
theorem forms_in_any_order (s : String) :
    (∀ (f g : MomentForm) (a b : Moment), f.read? s = some a → g.read? s = some b → a = b) ∧
      (∀ (f g : MomentForm) (a b : Moment), f ≠ g → f.read? s = some a → g.read? s = some b →
        (f = strict ∧ g = utcSecond ∨ f = utcSecond ∧ g = strict) ∧
          s.toList.getLast? = some 'Z') ∧
      ∀ forms : List MomentForm, forms.Perm all → firstOf? forms s = Moment.read? s :=
  ⟨fun _ _ _ _ => agree, fun _ _ _ _ => overlap,
    fun _ h => (firstOf?_perm h s).trans (firstOf?_all s)⟩

/-- A leap second in two forms, tried from the last form to the first. -/
theorem forms_in_any_order_leapSecond :
    ∃ a, strict.read? "2016-12-31T23:59:60.25Z" = some a ∧
      utcSecond.read? "2016-12-31T23:59:60.25Z" = some a ∧
      Moment.read? "2016-12-31T23:59:60.25Z" = some a ∧
      firstOf? all.reverse "2016-12-31T23:59:60.25Z" = some a := by
  obtain ⟨hagree, -, horder⟩ := forms_in_any_order "2016-12-31T23:59:60.25Z"
  obtain ⟨a, ha⟩ : ∃ a, strict.read? "2016-12-31T23:59:60.25Z" = some a :=
    Option.isSome_iff_exists.mp (by decide +kernel)
  obtain ⟨b, hb⟩ : ∃ b, utcSecond.read? "2016-12-31T23:59:60.25Z" = some b :=
    Option.isSome_iff_exists.mp (by decide +kernel)
  obtain rfl := hagree strict utcSecond a b ha hb
  have hread : Moment.read? "2016-12-31T23:59:60.25Z" = some a := by
    rw [← firstOf?_all]
    exact firstOf?_eq_some_iff.mpr ⟨strict, by decide, ha⟩
  exact ⟨a, ha, hb, hread, (horder _ all.reverse_perm).trans hread⟩

end MomentForm
end ScanCriteria
