import Mathlib.Data.List.Perm.Basic
import ScanCriteria.Proofs.Wire.Parts

/-!
# Layouts of one test

A field test can be laid out in several ways: bounds by position or by name, a value alone or under
its key, options by position or by name, a sub-field named or left out. Layouts of the same test are
parsed alike. A tuple with a field tag comes to what `fieldTest` makes of its parameters, and after
what leads it, the target or the text is read by one reader for plain and subbed fields.
-/
namespace ScanCriteria.Wire
open Json

/-- Both results are the same value, or neither is one. -/
def SameOk {ε α : Type} (x y : Except ε α) : Prop := ∀ a, x = .ok a ↔ y = .ok a

namespace SameOk

variable {ε α β : Type} {x y : Except ε α}

theorem of_eq (h : x = y) : SameOk x y := fun _ => by rw [h]

theorem of_faults {e f : ε} : SameOk (.error e : Except ε α) (.error f) := fun _ => by simp

theorem map (h : SameOk x y) (g : α → β) : SameOk (x.map g) (y.map g) := by
  intro b
  simp only [map_eq_ok, h _]

theorem bind {z : Except ε β} {g h : β → Except ε α} (hg : ∀ b, SameOk (g b) (h b)) :
    SameOk (z >>= g) (z >>= h) := by
  intro a
  simp only [bind_eq_ok, hg _ _]

end SameOk

/-- With each key once, the order of entries does not matter. -/
theorem find?_perm {es fs : Entries Value} (h : es.Perm fs) (hn : (es.map Prod.fst).Nodup)
    (key : String) : Named.find? key es = Named.find? key fs := by
  induction h with
  | nil => rfl
  | cons e _ ih =>
    rw [Named.find?, Named.find?, ih (List.nodup_cons.mp hn).2]
  | swap e f es =>
    obtain ⟨k, v⟩ := e
    obtain ⟨l, w⟩ := f
    have hkl : l ≠ k := by
      rintro rfl
      simp at hn
    simp only [Named.find?]
    by_cases hk : k = key
    · have hl : l ≠ key := hk ▸ hkl
      simp [hl]
    · simp [hk]
  | trans hes _ ih ih' => rw [ih hn, ih' ((hes.map _).nodup_iff.mp hn)]

theorem find?_single (key : String) (v : Value) :
    Named.find? key [(key, v)] = if v.isNull then none else some v := by
  cases v <;> simp [Named.find?, Value.isNull]

section Pair

variable {k l : String} {v w : Value} {es : Entries Value} (h : es.Perm [(k, v), (l, w)])
  (hkl : k ≠ l)
include h hkl

theorem find?_pair (key : String) :
    Named.find? key es = Named.find? key [(k, v), (l, w)] :=
  find?_perm h ((h.map _).nodup_iff.mpr (by simp [hkl])) key

theorem find?_pair_left : Named.find? k es = if v.isNull then none else some v := by
  have hw : Named.find? k [(l, w)] = none := find?_there (fun h => absurd h.symm hkl) []
  rw [find?_pair h hkl, Named.find?, hw]
  cases v <;> simp [Value.isNull]

theorem find?_pair_right : Named.find? l es = if w.isNull then none else some w := by
  rw [find?_pair h hkl, find?_there (fun h => absurd h hkl), find?_single]

theorem find?_pair_other {key : String} (hk : k ≠ key) (hl : l ≠ key) :
    Named.find? key es = none := by
  rw [find?_pair h hkl, find?_there (fun h => absurd h hk), find?_there (fun h => absurd h hl)]
  rfl

end Pair

section Readers

variable {α : Type} {read : String → Value → Except Fault α} {tag : String}

/-- Bounds by position and by name are the same target, or have the same fault. -/
theorem positionalRange_eq_targetOf {a b : Value} {es : Entries Value}
    (h : es.Perm [(minKey, a), (maxKey, b)]) :
    positionalRange read tag a b = Named.targetOf read tag (.object es) := by
  have hkeys : minKey ≠ maxKey := by decide
  have hat : Named.find? atKey es = none := find?_pair_other h hkeys (by decide) (by decide)
  have hmin := find?_pair_left h hkeys
  have hmax := find?_pair_right h hkeys
  have hobject : Named.targetOf read tag (.object es) = Named.target read tag es := rfl
  by_cases hn : a.isNull = true ∧ b.isNull = true
  · rw [positionalRange, if_pos hn, hobject]
    simp only [Named.target, hat, hmin, hmax, hn.1, hn.2, if_true]
  · have hne : (Named.find? minKey es).isSome = true ∨ (Named.find? maxKey es).isSome = true := by
      rw [hmin, hmax]
      cases a <;> cases b <;> simp_all [Value.isNull]
    rw [positionalRange, if_neg hn, hobject, target_of_range hat hne, hmin, hmax]
    rfl

end Readers

section Targets

variable {tag : String} {x : Value} (hx : ∀ es, x ≠ .object es)
include hx

theorem priceTarget_at :
    SameOk (SubbedField.priceTarget tag x) (SubbedField.priceTarget tag (.object [(atKey, x)])) := by
  cases x with
  | number n => exact .of_eq rfl
  | object es => exact absurd rfl (hx es)
  | _ => exact .of_faults

theorem dateTarget_at :
    SameOk (SubbedField.dateTarget tag x) (SubbedField.dateTarget tag (.object [(atKey, x)])) := by
  cases x with
  | string s => exact .of_eq rfl
  | object es => exact absurd rfl (hx es)
  | _ => exact .of_faults

theorem plainBoolean_at {f : Field} :
    SameOk (PlainField.boolean f tag [x]) (PlainField.boolean f tag [.object [(atKey, x)]]) := by
  cases x with
  | bool b => exact .of_eq rfl
  | object es => exact absurd rfl (hx es)
  | _ => exact .of_faults

end Targets

/-- Options by position and by name, none of them left out, are read as the same ones. -/
theorem textMatch_options {tag : String} {m n : Nat} {x as ic : Value} (has : as ≠ .null)
    (hic : ic ≠ .null) {es : Entries Value} (h : es.Perm [(asKey, as), (ignoreCaseKey, ic)]) :
    SameOk (textMatch tag m [x, as, ic]) (textMatch tag n [x, .object es]) := by
  have hkeys : asKey ≠ ignoreCaseKey := by decide
  have hoptions : Named.textOptions tag (.object es) = (do
      let a ← Literal.anchor tag as
      let i ← Literal.ignoreCase tag ic
      return (a, i)) := by
    have hobject : Named.object tag (.object es) = .ok es := rfl
    rw [Named.textOptions, hobject, ok_bind, find?_pair_left h hkeys, find?_pair_right h hkeys,
      isNull_eq_false_iff.mpr has, isNull_eq_false_iff.mpr hic]
    simp only [Bool.false_eq_true, if_false, Named.optional]
    cases Literal.anchor tag as with
    | error e => rfl
    | ok a => cases Literal.ignoreCase tag ic <;> rfl
  intro p
  simp only [textMatch, hoptions, bind_eq_ok, pure_eq_ok]
  constructor
  · rintro ⟨s, hs, a, ha, i, hi, rfl⟩
    exact ⟨(a, i), ⟨a, ha, i, hi, rfl⟩, s, hs, rfl⟩
  · rintro ⟨_, ⟨a, ha, i, hi, rfl⟩, s, hs, rfl⟩
    exact ⟨s, hs, a, ha, i, hi, rfl⟩

/-- What the parse of a field tuple comes to. -/
def fieldOutcome (tag : String) : Except Fault FieldTest → Except Failure Parsed
  | .ok t => .ok ⟨.field t, (Progress.start.enter.add tag).exit 0 t.kind⟩
  | .error f => .error ⟨f, Progress.start.enter.add tag⟩

theorem parse_field (f : Field) {params : List Value} (hl : params.length < Limits.length) :
    parse (headed f.tag params) = fieldOutcome f.tag (fieldTest f.tag params) := by
  have hlimit : exceededLimit? f.tag (params.length + 1) (Progress.start.enter.add f.tag) = none :=
    exceededLimit?_eq_none_iff.mpr ⟨Nat.le_of_ble_eq_true rfl, Nat.le_of_ble_eq_true rfl, hl⟩
  have htag := CriterionTag.ofText?_tag f
  cases ht : fieldTest f.tag params with
  | ok t =>
    have hof : Runs (criterionOf f.tag params) (Progress.start.enter.add f.tag) (.field t)
        (Progress.start.enter.add f.tag) := by
      simp only [criterionOf.eq_def, htag, runs_liftExcept, ht, Except.map, and_self]
    apply parse_eq_ok.mpr
    rw [headed, criterion]
    exact runs_tuple.mpr ⟨hlimit, .field t, _, hof, rfl, rfl⟩
  | error e =>
    have hbody : criterionBody f.tag params = .error e := by
      simp only [criterionBody, htag, ht, Except.map]
    apply parse_eq_error.mpr
    exact (fails_tuple_part (form_criterion hbody)).mpr (.inr ⟨hlimit, .inl ⟨rfl, rfl⟩⟩)

/-- What stands before the target or the text of a field: the sub-field, if it has any. -/
def Leads (f : Field) (pre : List Value) : Prop :=
  if f.isPlain then pre = [] else ∃ s, pre = [s]

/-- A test is read as what leads it, then its target, alone or as two bounds. -/
structure LedTarget {α : Type} (read : String → Value → Except Fault α)
    (target : String → Value → Except Fault (Target α)) (f : Field) (pre : List Value)
    (lead : Except Fault (Target α → FieldTest)) : Prop where
  one (v : Value) : fieldTest f.tag (pre ++ [v]) = lead >>= fun test => (target f.tag v).map test
  two (a b : Value) : fieldTest f.tag (pre ++ [a, b]) =
    lead >>= fun test => (positionalRange read f.tag a b).map test

theorem bind_map {ε α β σ : Type} (x : Except ε σ) (y : Except ε α) (g : σ → α → β) :
    (x >>= fun s => y >>= fun a => pure (g s a)) = x.map g >>= fun test => y.map test := by
  cases x with
  | error e => rfl
  | ok s => cases y <;> rfl

section Leads

variable {f : Field} {pre : List Value} (h : Leads f pre)
include h

theorem eq_nil_of_leads (hp : f.isPlain = true) : pre = [] := by
  simpa only [Leads, hp, if_true] using h

/-- Nothing leads the target of a plain field; that of `Price` is led by its sub-field. -/
theorem exists_ledTarget_numeric (hf : f.dataType = .numeric) :
    ∃ lead, LedTarget Literal.number SubbedField.priceTarget f pre lead := by
  by_cases hp : f.isPlain = true
  · obtain rfl := eq_nil_of_leads h hp
    have hplain (params : List Value) :
        fieldTest f.tag params = PlainField.numeric f f.tag params := by
      rw [fieldTest_of_plain hp, plainField, hf]
    exact ⟨.ok (.numeric f), fun v => by rw [ok_bind, List.nil_append, hplain, numeric_single],
      fun a b => by rw [ok_bind, List.nil_append, hplain, numeric_pair]⟩
  · obtain rfl : f = .price := by cases f <;> first | rfl | exact absurd rfl hp | cases hf
    obtain ⟨s, rfl⟩ := h
    have hprice (params : List Value) : fieldTest Field.price.tag params =
        SubbedField.price Field.price.tag params := by rw [fieldTest, Field.ofTag?_tag]
    refine ⟨(SubbedField.priceSub Field.price.tag s).map fun sub t => .price sub (some t), ?_, ?_⟩
    · intro v
      rw [hprice, List.singleton_append, SubbedField.price]
      exact bind_map _ _ _
    · intro a b
      rw [hprice, List.singleton_append, SubbedField.price]
      exact bind_map _ _ _

/-- Nothing leads the target of a plain field; that of `Date` is led by its sub-field. -/
theorem exists_ledTarget_date (hf : f.dataType = .date) :
    ∃ lead, LedTarget Literal.moment SubbedField.dateTarget f pre lead := by
  by_cases hp : f.isPlain = true
  · obtain rfl := eq_nil_of_leads h hp
    have hplain (params : List Value) :
        fieldTest f.tag params = PlainField.date f f.tag params := by
      rw [fieldTest_of_plain hp, plainField, hf]
    exact ⟨.ok (.date f), fun v => by rw [ok_bind, List.nil_append, hplain, date_single],
      fun a b => by rw [ok_bind, List.nil_append, hplain, date_pair]⟩
  · obtain rfl : f = .date := by cases f <;> first | rfl | exact absurd rfl hp | cases hf
    obtain ⟨s, rfl⟩ := h
    have hdate (params : List Value) : fieldTest Field.date.tag params =
        SubbedField.dated Field.date.tag params := by rw [fieldTest, Field.ofTag?_tag]
    refine ⟨(SubbedField.dateSub Field.date.tag s).map fun sub t => .dated sub (some t), ?_, ?_⟩
    · intro v
      rw [hdate, List.singleton_append, SubbedField.dated]
      exact bind_map _ _ _
    · intro a b
      rw [hdate, List.singleton_append, SubbedField.dated]
      exact bind_map _ _ _

theorem exists_ledText (hf : f.dataType = .text) :
    ∃ lead : Except Fault (TextMatch → FieldTest), ∀ v rest,
      fieldTest f.tag (pre ++ v :: rest) =
        lead >>= fun test => (textMatch f.tag (pre ++ v :: rest).length (v :: rest)).map test := by
  by_cases hp : f.isPlain = true
  · obtain rfl := eq_nil_of_leads h hp
    refine ⟨.ok (.text f), fun v rest => ?_⟩
    rw [fieldTest_of_plain hp, plainField, hf]
    rfl
  · have hnamed : f = .altCode ∨ f = .attributes := by
      cases f <;> first | exact .inl rfl | exact .inr rfl | exact absurd rfl hp | cases hf
    rw [Leads, if_neg hp] at h
    obtain ⟨s, rfl⟩ := h
    obtain rfl | rfl := hnamed
    · refine ⟨(subField AltCode.ofTag? .unknownAltCodeSubField Field.altCode.tag s).map
        fun sub p => .altCode sub (some p), fun v rest => ?_⟩
      rw [fieldTest, Field.ofTag?_tag]
      exact bind_map _ _ _
    · refine ⟨(subField Attribute.ofTag? .unknownAttributeSubField Field.attributes.tag s).map
        fun sub p => .attributes sub (some p), fun v rest => ?_⟩
      rw [fieldTest, Field.ofTag?_tag]
      exact bind_map _ _ _

theorem fieldTest_bounds (hf : f.dataType = .numeric ∨ f.dataType = .date) {a b : Value}
    {es : Entries Value} (hes : es.Perm [(minKey, a), (maxKey, b)]) :
    fieldTest f.tag (pre ++ [a, b]) = fieldTest f.tag (pre ++ [.object es]) := by
  obtain hf | hf := hf
  · obtain ⟨lead, hl⟩ := exists_ledTarget_numeric h hf
    rw [hl.one, hl.two, positionalRange_eq_targetOf hes]
    rfl
  · obtain ⟨lead, hl⟩ := exists_ledTarget_date h hf
    rw [hl.one, hl.two, positionalRange_eq_targetOf hes]
    rfl

theorem fieldTest_at (hf : f.dataType ≠ .text) {x : Value} (hx : ∀ es, x ≠ .object es) :
    SameOk (fieldTest f.tag (pre ++ [x])) (fieldTest f.tag (pre ++ [.object [(atKey, x)]])) := by
  cases hd : f.dataType with
  | boolean =>
    have hp : f.isPlain = true := by cases f <;> first | rfl | cases hd
    obtain rfl := eq_nil_of_leads h hp
    simp only [List.nil_append, fieldTest_of_plain hp, plainField, hd]
    exact plainBoolean_at hx
  | numeric =>
    obtain ⟨lead, hl⟩ := exists_ledTarget_numeric h hd
    rw [hl.one, hl.one]
    exact .bind fun test => (priceTarget_at hx).map test
  | date =>
    obtain ⟨lead, hl⟩ := exists_ledTarget_date h hd
    rw [hl.one, hl.one]
    exact .bind fun test => (dateTarget_at hx).map test
  | text => exact absurd hd hf

theorem fieldTest_options (hf : f.dataType = .text) {x as ic : Value} (has : as ≠ .null)
    (hic : ic ≠ .null) {es : Entries Value} (hes : es.Perm [(asKey, as), (ignoreCaseKey, ic)]) :
    SameOk (fieldTest f.tag (pre ++ [x, as, ic])) (fieldTest f.tag (pre ++ [x, .object es])) := by
  obtain ⟨lead, hl⟩ := exists_ledText h hf
  rw [hl, hl]
  exact .bind fun test => (textMatch_options has hic hes).map test

theorem fieldTest_noOptions (hf : f.dataType = .text) (x : Value) :
    fieldTest f.tag (pre ++ [x]) = fieldTest f.tag (pre ++ [x, .object []]) := by
  obtain ⟨lead, hl⟩ := exists_ledText h hf
  rw [hl, hl]
  rfl

theorem length_lt_of_leads {rest : List Value} (hr : rest.length ≤ 3) :
    (pre ++ rest).length < Limits.length := by
  have hpre : pre.length ≤ 1 := by
    unfold Leads at h
    split at h
    · simp [h]
    · obtain ⟨s, rfl⟩ := h
      simp
  have hlimit : 4 < Limits.length := Nat.le_of_ble_eq_true rfl
  rw [List.length_append]
  omega

end Leads

theorem fieldTest_price_alone :
    fieldTest Field.price.tag [] =
      fieldTest Field.price.tag [.string PriceSubField.last.label] := by
  simp only [fieldTest, Field.ofTag?_tag, readsSubTarget_price.nothing, readsSubTarget_price.sub]

theorem fieldTest_date_alone :
    fieldTest Field.date.tag [] =
      fieldTest Field.date.tag [.string DateSubField.dividend.label] := by
  simp only [fieldTest, Field.ofTag?_tag, readsSubTarget_dated.nothing, readsSubTarget_dated.sub]

theorem fieldTest_price_last {x : Value} (hx : ∀ s, x ≠ .string s) :
    fieldTest Field.price.tag [x] =
      fieldTest Field.price.tag [.string PriceSubField.last.label, x] := by
  have hsub : SubbedField.priceSub Field.price.tag (.string PriceSubField.last.label) =
      .ok .last := priceSub_eq_ok_iff.mpr rfl
  simp only [fieldTest, Field.ofTag?_tag, SubbedField.price, hsub, ok_bind]
  cases SubbedField.priceTarget Field.price.tag x <;> rfl

theorem fieldTest_date_dividend {x : Value}
    (hx : x ≠ .string DateSubField.dividend.label) :
    fieldTest Field.date.tag [x] =
      fieldTest Field.date.tag [.string DateSubField.dividend.label, x] := by
  have hsub : SubbedField.dateSub Field.date.tag (.string DateSubField.dividend.label) =
      .ok .dividend := dateSub_eq_ok_iff.mpr rfl
  have hone : SubbedField.dated Field.date.tag [x] =
      (SubbedField.dateTarget Field.date.tag x).map fun t => .dated .dividend (some t) := by
    cases x with
    | string s =>
      have hs : DateSubField.ofLabel? s = none := by
        apply Option.eq_none_iff_forall_ne_some.mpr
        rintro ⟨⟩ ha
        exact hx (DateSubField.ofLabel?_eq_some_iff.mp ha ▸ rfl)
      simp only [SubbedField.dated, hs]
    | _ => rfl
  simp only [fieldTest, Field.ofTag?_tag, hone]
  rw [SubbedField.dated, hsub, ok_bind]
  cases SubbedField.dateTarget Field.date.tag x <;> rfl

theorem parse_congr {f : Field} {ps qs : List Value} (h : fieldTest f.tag ps = fieldTest f.tag qs)
    (hp : ps.length < Limits.length) (hq : qs.length < Limits.length) :
    parse (headed f.tag ps) = parse (headed f.tag qs) := by
  rw [parse_field f hp, parse_field f hq, h]

theorem sameOk_parse {f : Field} {ps qs : List Value}
    (h : SameOk (fieldTest f.tag ps) (fieldTest f.tag qs)) (hp : ps.length < Limits.length)
    (hq : qs.length < Limits.length) :
    SameOk (parse (headed f.tag ps)) (parse (headed f.tag qs)) := by
  have hok {x : Except Fault FieldTest} {p : Parsed} :
      fieldOutcome f.tag x = .ok p ↔ ∃ t, x = .ok t ∧ fieldOutcome f.tag (.ok t) = .ok p := by
    cases x <;> simp [fieldOutcome]
  intro p
  rw [parse_field f hp, parse_field f hq, hok, hok]
  simp only [h _]

/-- The layouts of one test agree. Bounds by position and by name parse alike, with the same result
or the same failure. So do a text alone and with an object of no options, and what stands for a
sub-field that is left out. A value by itself and under its key, and options by position and by
name, are the same criterion or fail both; there the fault may be another, since other things are
looked at first. -/
theorem layouts_agree :
    (∀ (f : Field) (pre : List Value), Leads f pre →
      (f.dataType = .numeric ∨ f.dataType = .date → ∀ (a b : Value) (es : Entries Value),
        es.Perm [(minKey, a), (maxKey, b)] →
          parse (headed f.tag (pre ++ [a, b])) = parse (headed f.tag (pre ++ [.object es]))) ∧
      (f.dataType ≠ .text → ∀ x : Value, (∀ es, x ≠ .object es) →
        SameOk (parse (headed f.tag (pre ++ [x])))
          (parse (headed f.tag (pre ++ [.object [(atKey, x)]])))) ∧
      (f.dataType = .text → ∀ x : Value,
        (∀ (as ic : Value) (es : Entries Value), as ≠ .null → ic ≠ .null →
          es.Perm [(asKey, as), (ignoreCaseKey, ic)] →
          SameOk (parse (headed f.tag (pre ++ [x, as, ic])))
            (parse (headed f.tag (pre ++ [x, .object es])))) ∧
        parse (headed f.tag (pre ++ [x])) = parse (headed f.tag (pre ++ [x, .object []])))) ∧
    parse (headed Field.price.tag []) =
      parse (headed Field.price.tag [.string PriceSubField.last.label]) ∧
    parse (headed Field.date.tag []) =
      parse (headed Field.date.tag [.string DateSubField.dividend.label]) ∧
    (∀ x : Value, (∀ s, x ≠ .string s) →
      parse (headed Field.price.tag [x]) =
        parse (headed Field.price.tag [.string PriceSubField.last.label, x])) ∧
    (∀ x : Value, x ≠ .string DateSubField.dividend.label →
      parse (headed Field.date.tag [x]) =
        parse (headed Field.date.tag [.string DateSubField.dividend.label, x])) := by
  have hlimit : 2 < Limits.length := Nat.le_of_ble_eq_true rfl
  refine ⟨fun f pre h => ⟨?_, ?_, ?_⟩, ?_, ?_, ?_, ?_⟩
  · intro hf a b es hes
    exact parse_congr (fieldTest_bounds h hf hes) (length_lt_of_leads h (by simp))
      (length_lt_of_leads h (by simp))
  · intro hf x hx
    exact sameOk_parse (fieldTest_at h hf hx) (length_lt_of_leads h (by simp))
      (length_lt_of_leads h (by simp))
  · intro hf x
    constructor
    · intro as ic es has hic hes
      exact sameOk_parse (fieldTest_options h hf has hic hes) (length_lt_of_leads h (by simp))
        (length_lt_of_leads h (by simp))
    · exact parse_congr (fieldTest_noOptions h hf x) (length_lt_of_leads h (by simp))
        (length_lt_of_leads h (by simp))
  · exact parse_congr fieldTest_price_alone (by simp; omega) (by simp; omega)
  · exact parse_congr fieldTest_date_alone (by simp; omega) (by simp; omega)
  · intro x hx
    exact parse_congr (fieldTest_price_last hx) (by simp; omega) (by simp; omega)
  · intro x hx
    exact parse_congr (fieldTest_date_dividend hx) (by simp; omega) (by simp; omega)

/-- At least five, five by its key, and a text with both options: each parses in both layouts. -/
theorem layouts_agree_named :
    let five : Value := .number (.integer 5 (by decide))
    let bounds : List Value := [.string "Last", five, .null]
    let options : List Value := [.string "ISIN", .string "AU", .string "Exact", .bool true]
    (parse (headed Field.price.tag bounds) = parse (headed Field.price.tag
        [.string "Last", .object [(maxKey, .null), (minKey, five)]]) ∧
      ∃ p, parse (headed Field.price.tag bounds) = .ok p) ∧
    (SameOk (parse (headed Field.lotSize.tag [five]))
        (parse (headed Field.lotSize.tag [.object [(atKey, five)]])) ∧
      ∃ p, parse (headed Field.lotSize.tag [five]) = .ok p) ∧
    SameOk (parse (headed Field.altCode.tag options)) (parse (headed Field.altCode.tag
        [.string "ISIN", .string "AU",
          .object [(asKey, .string "Exact"), (ignoreCaseKey, .bool true)]])) ∧
      ∃ p, parse (headed Field.altCode.tag options) = .ok p := by
  have hparse {f : Field} {ps : List Value} {t : FieldTest} (h : fieldTest f.tag ps = .ok t)
      (hp : ps.length < Limits.length) : ∃ p, parse (headed f.tag ps) = .ok p := by
    rw [parse_field f hp, h]
    exact ⟨_, rfl⟩
  refine ⟨⟨?_, ?_⟩, ⟨?_, ?_⟩, ?_, ?_⟩
  · exact (layouts_agree.1 .price [_] ⟨_, rfl⟩).1 (.inl rfl) _ _ _ (.swap _ _ _)
  · exact hparse (t := .price .last (some (.inRange ⟨some (.ofInt 5), none⟩))) rfl
      (Nat.le_of_ble_eq_true rfl)
  · exact (layouts_agree.1 .lotSize [] rfl).2.1 nofun _ nofun
  · exact hparse (t := .numeric .lotSize (.equals (.ofInt 5))) rfl (Nat.le_of_ble_eq_true rfl)
  · exact ((layouts_agree.1 .altCode [_] ⟨_, rfl⟩).2.2 rfl _).1 _ _ _ nofun nofun (.refl _)
  · exact hparse (t := .altCode .isin (some ⟨"AU", .exact, true⟩)) rfl
      (Nat.le_of_ble_eq_true rfl)

end ScanCriteria.Wire
