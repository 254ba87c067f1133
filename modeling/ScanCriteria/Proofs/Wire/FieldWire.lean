import ScanCriteria.Proofs.Wire.FieldReading
import ScanCriteria.Wire.Serialize

/-!
# Wire forms of field tests

Read back, the wire form of a field test is the test, settled and without the bounds that are not
finite, or no test at all. Numbers that are not finite are written as `null`: as a bound that is
like writing none, as a value it is refused.
-/
namespace ScanCriteria.Wire
open Json

variable {α : Type} {R : Value → α → Prop} {f : α → Value} {keep : α → Bool} {good : α → Prop}

/-- How `f` writes: as `null` unless the value is kept, and so that what is good is read back. -/
structure Writes (R : Value → α → Prop) (f : α → Value) (keep : α → Bool) (good : α → Prop) :
    Prop where
  isNull_eq : ∀ x, (f x).isNull = !keep x
  ne_object : ∀ x es, f x ≠ .object es
  object : ∀ es x, ¬R (.object es) x
  denotes_iff : ∀ x y, R (f x) y ↔ good x ∧ y = x

theorem writes_number :
    Writes NumberDenotes .ofDouble Double.isFinite (Double.isFinite · = true) where
  isNull_eq x := by
    cases hx : x.isFinite with
    | true => rw [Value.ofDouble_of_isFinite hx]; rfl
    | false => rw [Value.ofDouble_of_not_isFinite hx]; rfl
  ne_object x es := by
    cases hx : x.isFinite with
    | true => rw [Value.ofDouble_of_isFinite hx]; nofun
    | false => rw [Value.ofDouble_of_not_isFinite hx]; nofun
  object es x := nofun
  denotes_iff x y := by
    cases hx : x.isFinite with
    | true =>
      rw [Value.ofDouble_of_isFinite hx]
      constructor
      · rintro ⟨⟩
        exact ⟨rfl, rfl⟩
      · rintro ⟨-, rfl⟩
        exact .mk (.real y hx)
    | false =>
      rw [Value.ofDouble_of_not_isFinite hx]
      exact ⟨nofun, nofun⟩

theorem writes_moment : Writes MomentDenotes Moment.wire (fun _ => true) Moment.Readable where
  isNull_eq a := rfl
  ne_object a es := nofun
  object es a := nofun
  denotes_iff a b := by
    rw [← Moment.read?_text_eq_some_iff]
    constructor
    · rintro ⟨h⟩
      exact h
    · exact .mk

/-- Names that are looked up are told apart. -/
theorem name_inj {σ : Type} {ofText? : String → Option σ} {name : σ → String}
    (hname : ∀ s a, ofText? s = some a ↔ name a = s) (a b : σ) (h : name a = name b) : a = b := by
  have ha := (hname (name a) a).mpr rfl
  rw [h, (hname (name b) b).mpr rfl] at ha
  exact (Option.some.inj ha).symm

theorem find?_append (key : String) (es fs : Entries Value) :
    Named.find? key (es ++ fs) = (Named.find? key es).or (Named.find? key fs) := by
  induction es with
  | nil => rfl
  | cons e es ih =>
    rw [List.cons_append, Named.find?, Named.find?, ih]
    split <;> rfl

theorem find?_other {k key : String} (hk : k ≠ key) (o : Option α) :
    Named.find? key (o.map fun x => (k, f x)).toList = none := by
  cases o with
  | none => rfl
  | some x => simp [Named.find?, hk]

theorem namedDenotes_of_none {key : String} {es : Entries Value} {o : Option α}
    (h : Named.find? key es = none) : NamedDenotes R key es o ↔ o = none := by
  constructor
  · intro ho
    cases ho with
    | absent => rfl
    | present hv _ =>
      rw [find?_eq_some_iff.mpr hv] at h
      cases h
  · rintro rfl
    exact .absent (find?_eq_none_iff.mp h)

theorem namedDenotes_of_some {key : String} {es : Entries Value} {v : Value} {o : Option α}
    (h : Named.find? key es = some v) : NamedDenotes R key es o ↔ ∃ a, R v a ∧ o = some a := by
  constructor
  · intro ho
    cases ho with
    | absent ha =>
      rw [find?_eq_none_iff.mpr ha] at h
      cases h
    | present hv ha =>
      rw [find?_eq_some_iff.mpr hv] at h
      cases h
      exact ⟨_, ha, rfl⟩
  · rintro ⟨a, ha, rfl⟩
    exact .present (find?_eq_some_iff.mp h) ha

theorem targetDenotes_object {es : Entries Value} {t : Target α}
    (hR : ∀ x, ¬R (.object es) x) : TargetDenotes R [.object es] t ↔ ObjectDenotes R es t := by
  rw [targetDenotes_single]
  constructor
  · rintro (⟨a, ha, -⟩ | ⟨es', hes, h⟩)
    · exact absurd ha (hR a)
    · cases hes
      exact h
  · exact fun h => .inr ⟨es, rfl, h⟩

namespace Writes

variable (hw : Writes R f keep good)
include hw

theorem find?_entry (key : String) (o : Option α) :
    Named.find? key (o.map fun x => (key, f x)).toList = (o.filter keep).map f := by
  cases o with
  | none => rfl
  | some x => cases hx : keep x <;> simp [Named.find?, Option.filter, hw.isNull_eq, hx]

theorem namedDenotes_iff {key : String} {es : Entries Value} {o o' : Option α}
    (h : Named.find? key es = o.map f) :
    NamedDenotes R key es o' ↔ (∀ x ∈ o.toList, good x) ∧ o' = o := by
  cases o with
  | none => simp [namedDenotes_of_none h]
  | some x => simp [namedDenotes_of_some h, hw.denotes_iff]

theorem bounds_iff {b : Bounds α} {t : Target α} :
    TargetDenotes R [b.wire f] t ↔ (Target.inRange b).Recoverable keep good ∧
      t = (Target.inRange b).filter keep := by
  have hat : Named.find? atKey ((b.max.map fun x => (maxKey, f x)).toList ++
      (b.min.map fun x => (minKey, f x)).toList) = none := by
    rw [find?_append, find?_other (by decide), find?_other (by decide), Option.or_none]
  have hmin : Named.find? minKey ((b.max.map fun x => (maxKey, f x)).toList ++
      (b.min.map fun x => (minKey, f x)).toList) = (b.filter keep).min.map f := by
    rw [find?_append, find?_other (by decide), hw.find?_entry, Option.none_or, Bounds.filter]
  have hmax : Named.find? maxKey ((b.max.map fun x => (maxKey, f x)).toList ++
      (b.min.map fun x => (minKey, f x)).toList) = (b.filter keep).max.map f := by
    rw [find?_append, hw.find?_entry, find?_other (by decide), Option.or_none, Bounds.filter]
  rw [Bounds.wire, targetDenotes_object (hw.object _), Target.Recoverable, Target.filter,
    Bounds.values, List.forall_mem_append]
  constructor
  · intro h
    cases h with
    | value hv =>
      rw [find?_eq_some_iff.mpr hv] at hat
      cases hat
    | @range b' _ hmin' hmax' hne =>
      obtain ⟨hgmin, hmin⟩ := (hw.namedDenotes_iff hmin).mp hmin'
      obtain ⟨hgmax, hmax⟩ := (hw.namedDenotes_iff hmax).mp hmax'
      obtain rfl : b' = b.filter keep := calc
        b' = ⟨b'.min, b'.max⟩ := rfl
        _ = b.filter keep := by rw [hmin, hmax]
      exact ⟨⟨hne, hgmin, hgmax⟩, rfl⟩
  · rintro ⟨⟨hne, hgmin, hgmax⟩, rfl⟩
    exact .range (find?_eq_none_iff.mp hat) ((hw.namedDenotes_iff hmin).mpr ⟨hgmin, rfl⟩)
      ((hw.namedDenotes_iff hmax).mpr ⟨hgmax, rfl⟩) hne

theorem target_iff {t u : Target α} :
    TargetDenotes R [t.wire f] u ↔ t.Recoverable keep good ∧ u = t.filter keep := by
  cases t with
  | inRange b => exact hw.bounds_iff
  | equals x =>
    rw [targetDenotes_single]
    constructor
    · rintro (⟨a, ha, rfl⟩ | ⟨es, he, -⟩)
      · obtain ⟨hx, rfl⟩ := (hw.denotes_iff x a).mp ha
        exact ⟨hx, rfl⟩
      · exact absurd he (hw.ne_object x es)
    · rintro ⟨hx, rfl⟩
      exact .inl ⟨x, (hw.denotes_iff x x).mpr ⟨hx, rfl⟩, rfl⟩

variable {σ : Type} {name : σ → String}

/-- The sub-field is always written, and its name is no value. -/
theorem sub_iff (hname : ∀ s s', name s = name s' → s = s')
    (hstring : ∀ s x, ¬R (.string (name s)) x) {default s s' : σ} {t u : Option (Target α)} :
    SubTargetDenotes name default R (.string (name s) :: wireTarget f t) s' u ↔
      (∀ x ∈ t, x.Recoverable keep good) ∧ s' = s ∧ u = t.map (Target.filter keep) := by
  constructor
  · intro h
    generalize hp : Value.string (name s) :: wireTarget f t = params at h
    cases h with
    | nothing => cases hp
    | sub =>
      cases t with
      | none =>
        have hs := Value.string.inj (List.cons.inj hp).1
        exact ⟨nofun, hname _ _ hs.symm, rfl⟩
      | some t => exact nomatch (List.cons.inj hp).2
    | target ht =>
      obtain ⟨rfl, -⟩ := List.cons.inj hp
      obtain ⟨a, ha, -⟩ | ⟨es, hes, -⟩ := targetDenotes_single.mp ht
      · exact absurd ha (hstring s a)
      · cases hes
    | subTarget _ ht =>
      obtain ⟨hs, rfl⟩ := List.cons.inj hp
      cases t with
      | none => cases ht
      | some t =>
        obtain ⟨hg, rfl⟩ := hw.target_iff.mp ht
        refine ⟨?_, hname _ _ (Value.string.inj hs).symm, rfl⟩
        rintro _ ⟨⟩
        exact hg
  · rintro ⟨hg, rfl, rfl⟩
    cases t with
    | none => exact .sub s'
    | some t => exact .subTarget s' (hw.target_iff.mpr ⟨hg t rfl, rfl⟩)

theorem subTest_iff {test : σ → Option (Target α) → FieldTest}
    (hname : ∀ s s', name s = name s' → s = s') (hstring : ∀ s x, ¬R (.string (name s)) x)
    {default s : σ} {t : Option (Target α)} {v : FieldTest} :
    (∃ s' u, SubTargetDenotes name default R (.string (name s) :: wireTarget f t) s' u ∧
        test s' u = v) ↔
      (∀ x ∈ t, x.Recoverable keep good) ∧ v = test s (t.map (Target.filter keep)) := by
  constructor
  · rintro ⟨s', u, h, rfl⟩
    obtain ⟨hg, rfl, rfl⟩ := (hw.sub_iff hname hstring).mp h
    exact ⟨hg, rfl⟩
  · rintro ⟨hg, rfl⟩
    exact ⟨s, _, (hw.sub_iff hname hstring).mpr ⟨hg, rfl, rfl⟩, rfl⟩

end Writes

theorem textMatch_wire (tag : String) (n : Nat) (p : TextMatch) :
    textMatch tag n p.wire = .ok p := by
  have hother : asKey ≠ ignoreCaseKey := by decide
  simp [textMatch, TextMatch.wire, Named.textOptions, Named.object, Named.find?, Named.optional,
    hother, Literal.anchor, Literal.ignoreCase, Literal.text, Anchor.ofLabel?_label, Value.isNull,
    bind, Except.bind, Except.map, pure, Except.pure]

theorem textDenotes_wire {p q : TextMatch} : TextDenotes p.wire q ↔ q = p := by
  have h : textMatch "" 0 p.wire = .ok q ↔ TextDenotes p.wire q := textMatch_eq_ok_iff
  rw [← h, textMatch_wire, Except.ok.injEq, eq_comm]

section SubText

variable {σ : Type} {name : σ → String} (hname : ∀ s s', name s = name s' → s = s')
include hname

theorem subText_iff {s s' : σ} {p q : Option TextMatch} :
    SubTextDenotes name (.string (name s) :: wirePattern p) s' q ↔ s' = s ∧ q = p := by
  constructor
  · intro h
    generalize hp : Value.string (name s) :: wirePattern p = params at h
    cases h with
    | sub =>
      have hs := Value.string.inj (List.cons.inj hp).1
      cases p with
      | none => exact ⟨hname _ _ hs.symm, rfl⟩
      | some p => exact nomatch (List.cons.inj hp).2
    | subText _ hq =>
      obtain ⟨hs, rfl⟩ := List.cons.inj hp
      cases p with
      | none => cases hq
      | some p =>
        exact ⟨hname _ _ (Value.string.inj hs).symm, congrArg some (textDenotes_wire.mp hq)⟩
  · rintro ⟨rfl, rfl⟩
    cases q with
    | none => exact .sub s'
    | some q => exact .subText s' (textDenotes_wire.mpr rfl)

theorem subTextTest_iff {test : σ → Option TextMatch → FieldTest} {s : σ} {p : Option TextMatch}
    {v : FieldTest} :
    (∃ s' q, SubTextDenotes name (.string (name s) :: wirePattern p) s' q ∧ test s' q = v) ↔
      v = test s p := by
  constructor
  · rintro ⟨s', q, h, rfl⟩
    obtain ⟨rfl, rfl⟩ := (subText_iff hname).mp h
    rfl
  · rintro rfl
    exact ⟨s, p, (subText_iff hname).mpr ⟨rfl, rfl⟩, rfl⟩

end SubText

/-- The field that a test is of. -/
def testField : FieldTest → Field
  | .hasValue f | .boolean f _ | .numeric f _ | .date f _ | .text f _ => f
  | .price _ _ => .price
  | .dated _ _ => .date
  | .altCode _ _ => .altCode
  | .attributes _ _ => .attributes

/-- The parameters that a test is written with. -/
def testParams : FieldTest → List Value
  | .hasValue _ => []
  | .boolean _ b => [.bool b]
  | .numeric _ t => [t.wire .ofDouble]
  | .date _ t => [t.wire Moment.wire]
  | .text _ p => p.wire
  | .price s t => .string s.label :: wireTarget .ofDouble t
  | .dated s t => .string s.label :: wireTarget Moment.wire t
  | .altCode s p => .string s.tag :: wirePattern p
  | .attributes s p => .string s.tag :: wirePattern p

theorem wire_eq_headed (t : FieldTest) : t.wire = headed (testField t).tag (testParams t) := by
  cases t <;> rfl

theorem TestDenotes.testField_eq {f : Field} {params : List Value} {t : FieldTest}
    (h : TestDenotes f params t) : testField t = f := by
  cases h <;> rfl

section Tests

variable {u : FieldTest}

theorem hasValue_wire_iff {f : Field} (hf : f.isPlain = true) :
    TestDenotes f [] u ↔ u = (FieldTest.hasValue f).recovered := by
  by_cases hb : f.group = .boolean
  · have hi : f = .isIndex := by
      cases f <;> first | rfl | cases hb
    subst hi
    constructor
    · intro h
      cases h with
      | hasValue _ hg => exact absurd rfl hg
      | isTrue _ => rfl
      | numeric hg | date hg | text hg => cases hg
    · rintro rfl
      exact .isTrue rfl
  · have hs : (FieldTest.hasValue f).recovered = .hasValue f := by
      cases f <;> first | rfl | exact absurd rfl hb
    rw [hs]
    constructor
    · intro h
      cases h with
      | hasValue => rfl
      | isTrue hg => exact absurd hg hb
      | numeric _ h | date _ h | text _ h => cases h
      | price | dated => cases hf
      | altCode h | attributes h => cases h
    · rintro rfl
      exact .hasValue hf hb

theorem boolean_wire_iff {f : Field} {b : Bool} (hf : f.group = .boolean) :
    TestDenotes f [.bool b] u ↔ u = .boolean f b := by
  rw [testDenotes_boolean hf]
  constructor
  · rintro (⟨hnil, -⟩ | ⟨v, c, hv, hc, rfl⟩)
    · cases hnil
    · obtain rfl := List.singleton_inj.mp hv
      obtain ⟨_, ⟨⟩, ⟨⟩⟩ | ⟨_, ⟨⟩, _⟩ := targetDenotes_single.mp hc
      rfl
  · rintro rfl
    exact .inr ⟨_, b, rfl, .literal (.mk b), rfl⟩

theorem numeric_wire_iff {f : Field} {t : Target Double} (hf : f.group = .numeric) :
    TestDenotes f [t.wire .ofDouble] u ↔
      (FieldTest.numeric f t).Recoverable ∧ u = (FieldTest.numeric f t).recovered := by
  rw [testDenotes_numeric hf]
  constructor
  · rintro (⟨hnil, -⟩ | ⟨v, hv, rfl⟩)
    · cases hnil
    · obtain ⟨hg, rfl⟩ := writes_number.target_iff.mp hv
      exact ⟨hg, rfl⟩
  · rintro ⟨hg, rfl⟩
    exact .inr ⟨_, writes_number.target_iff.mpr ⟨hg, rfl⟩, rfl⟩

theorem date_wire_iff {f : Field} {t : Target Moment} (hf : f.group = .date) :
    TestDenotes f [t.wire Moment.wire] u ↔
      (FieldTest.date f t).Recoverable ∧ u = (FieldTest.date f t).recovered := by
  rw [testDenotes_date hf]
  constructor
  · rintro (⟨hnil, -⟩ | ⟨v, hv, rfl⟩)
    · cases hnil
    · obtain ⟨hg, rfl⟩ := writes_moment.target_iff.mp hv
      rw [Target.filter_true]
      exact ⟨hg, rfl⟩
  · rintro ⟨hg, rfl⟩
    exact .inr ⟨_, writes_moment.target_iff.mpr ⟨hg, t.filter_true.symm⟩, rfl⟩

theorem text_wire_iff {f : Field} {p : TextMatch} (hf : f.group = .text) :
    TestDenotes f p.wire u ↔ u = .text f p := by
  rw [testDenotes_text hf]
  constructor
  · rintro (⟨hnil, -⟩ | ⟨q, hq, rfl⟩)
    · cases hnil
    · rw [textDenotes_wire.mp hq]
  · rintro rfl
    exact .inr ⟨p, textDenotes_wire.mpr rfl, rfl⟩

theorem price_wire_iff {s : PriceSubField} {t : Option (Target Double)} :
    TestDenotes .price (.string s.label :: wireTarget .ofDouble t) u ↔
      (FieldTest.price s t).Recoverable ∧ u = (FieldTest.price s t).recovered := by
  have hname := name_inj fun _ _ => PriceSubField.ofLabel?_eq_some_iff
  rw [testDenotes_price, writes_number.subTest_iff hname fun _ _ => nofun]
  cases t <;> simp [FieldTest.Recoverable, FieldTest.recovered, FieldTest.settled,
    FieldTest.withFiniteBounds]

theorem dated_wire_iff {s : DateSubField} {t : Option (Target Moment)} :
    TestDenotes .date (.string s.label :: wireTarget Moment.wire t) u ↔
      (FieldTest.dated s t).Recoverable ∧ u = (FieldTest.dated s t).recovered := by
  have hname := name_inj fun _ _ => DateSubField.ofLabel?_eq_some_iff
  rw [testDenotes_dated, writes_moment.subTest_iff hname not_momentDenotes_dateSub]
  cases t <;> simp [FieldTest.Recoverable, FieldTest.recovered, FieldTest.settled,
    FieldTest.withFiniteBounds, Target.filter_true]

theorem altCode_wire_iff {s : AltCode} {p : Option TextMatch} :
    TestDenotes .altCode (.string s.tag :: wirePattern p) u ↔ u = .altCode s p := by
  rw [testDenotes_altCode, subTextTest_iff (name_inj fun _ _ => AltCode.ofTag?_eq_some_iff)]

theorem attributes_wire_iff {s : Attribute} {p : Option TextMatch} :
    TestDenotes .attributes (.string s.tag :: wirePattern p) u ↔ u = .attributes s p := by
  rw [testDenotes_attributes, subTextTest_iff (name_inj fun _ _ => Attribute.ofTag?_eq_some_iff)]

/-- What the wire form of a test denotes. -/
theorem testDenotes_wire_iff {t : FieldTest} (ht : t.InRole) :
    TestDenotes (testField t) (testParams t) u ↔ t.Recoverable ∧ u = t.recovered := by
  have hgroup {f : Field} {g : FieldGroup} (h : f.plays (.ofGroup g) = true) : f.group = g := by
    simpa [Field.plays] using h
  have htrue {p : Prop} : p ↔ True ∧ p := ⟨fun h => ⟨trivial, h⟩, And.right⟩
  cases t with
  | hasValue f => exact (hasValue_wire_iff ht).trans htrue
  | boolean f b => exact (boolean_wire_iff (hgroup ht)).trans htrue
  | numeric f t => exact numeric_wire_iff (hgroup ht)
  | date f t => exact date_wire_iff (hgroup ht)
  | text f p => exact (text_wire_iff (hgroup ht)).trans htrue
  | price s t => exact price_wire_iff
  | dated s t => exact dated_wire_iff
  | altCode s p => exact altCode_wire_iff.trans htrue
  | attributes s p => exact attributes_wire_iff.trans htrue

end Tests

end ScanCriteria.Wire
