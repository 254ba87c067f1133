import ScanCriteria.Proofs.Criterion.Tests
import ScanCriteria.Wire.FieldTuple

/-!
# The grammar of field tuples

`TestDenotes f params t` says that `t` is what the parameters of a tuple headed by the tag of `f`
mean. The relation is put together from what a value means as a literal, what an object means under
its keys and what a list of parameters means as a target or as a text.
-/
namespace ScanCriteria.Wire
open Json

inductive NumberDenotes : Value → Double → Prop
  | mk (n : Number) : NumberDenotes (.number n) n.toDouble

inductive MomentDenotes : Value → Moment → Prop
  | mk {s : String} {a : Moment} : Moment.read? s = some a → MomentDenotes (.string s) a

inductive TruthDenotes : Value → Bool → Prop
  | mk (b : Bool) : TruthDenotes (.bool b) b

inductive AnchorDenotes : Value → Anchor → Prop
  | mk (a : Anchor) : AnchorDenotes (.string a.label) a

/-- Whatever stands under the key is `null`. -/
def Absent (key : String) (es : Entries Value) : Prop := ∀ e ∈ es, e.1 = key → e.2 = .null

/-- The first entry under the key that is not `null` holds `v`. -/
inductive Present (key : String) (v : Value) : Entries Value → Prop
  | here {rest : Entries Value} : v ≠ .null → Present key v ((key, v) :: rest)
  | there {e : String × Value} {rest : Entries Value} :
      (e.1 = key → e.2 = .null) → Present key v rest → Present key v (e :: rest)

variable {α σ : Type}

/-- What stands under a key, if anything does. -/
inductive NamedDenotes (R : Value → α → Prop) (key : String) (es : Entries Value) :
    Option α → Prop
  | absent : Absent key es → NamedDenotes R key es none
  | present {v : Value} {a : α} : Present key v es → R v a → NamedDenotes R key es (some a)

/-- An object is a value under `At`, or a range under `Min` and `Max` without `At`. -/
inductive ObjectDenotes (R : Value → α → Prop) (es : Entries Value) : Target α → Prop
  | value {v : Value} {a : α} : Present atKey v es → Absent minKey es → Absent maxKey es →
      R v a → ObjectDenotes R es (.equals a)
  | range {b : Bounds α} : Absent atKey es → NamedDenotes R minKey es b.min →
      NamedDenotes R maxKey es b.max → b.NonEmpty → ObjectDenotes R es (.inRange b)

inductive PositionalDenotes (R : Value → α → Prop) : Value → Option α → Prop
  | absent : PositionalDenotes R .null none
  | present {v : Value} {a : α} : R v a → PositionalDenotes R v (some a)

/-- A target is a literal, an object, or two bounds by position. -/
inductive TargetDenotes (R : Value → α → Prop) : List Value → Target α → Prop
  | literal {v : Value} {a : α} : R v a → TargetDenotes R [v] (.equals a)
  | named {es : Entries Value} {t : Target α} :
      ObjectDenotes R es t → TargetDenotes R [.object es] t
  | positional {v w : Value} {b : Bounds α} : PositionalDenotes R v b.min →
      PositionalDenotes R w b.max → b.NonEmpty → TargetDenotes R [v, w] (.inRange b)

/-- A text stands alone, before an object of options, or before both options by position. -/
inductive TextDenotes : List Value → TextMatch → Prop
  | alone (s : String) : TextDenotes [.string s] ⟨s, .anywhere, false⟩
  | named (s : String) {es : Entries Value} {anchor : Option Anchor} {ignoreCase : Option Bool} :
      NamedDenotes AnchorDenotes asKey es anchor →
      NamedDenotes TruthDenotes ignoreCaseKey es ignoreCase →
      TextDenotes [.string s, .object es] ⟨s, anchor.getD .anywhere, ignoreCase.getD false⟩
  | positional (s : String) (anchor : Anchor) (ignoreCase : Bool) :
      TextDenotes [.string s, .string anchor.label, .bool ignoreCase] ⟨s, anchor, ignoreCase⟩

/-- Parameters of a subbed field with a default sub-field. -/
inductive SubTargetDenotes (name : σ → String) (default : σ) (R : Value → α → Prop) :
    List Value → σ → Option (Target α) → Prop
  | nothing : SubTargetDenotes name default R [] default none
  | sub (s : σ) : SubTargetDenotes name default R [.string (name s)] s none
  | target {v : Value} {t : Target α} : TargetDenotes R [v] t →
      SubTargetDenotes name default R [v] default (some t)
  | subTarget (s : σ) {params : List Value} {t : Target α} : TargetDenotes R params t →
      SubTargetDenotes name default R (.string (name s) :: params) s (some t)

/-- Parameters of a subbed field whose sub-field may not be left out. -/
inductive SubTextDenotes (name : σ → String) : List Value → σ → Option TextMatch → Prop
  | sub (s : σ) : SubTextDenotes name [.string (name s)] s none
  | subText (s : σ) {params : List Value} {p : TextMatch} : TextDenotes params p →
      SubTextDenotes name (.string (name s) :: params) s (some p)

inductive TestDenotes : Field → List Value → FieldTest → Prop
  | hasValue {f : Field} : f.isPlain = true → f.group ≠ .boolean → TestDenotes f [] (.hasValue f)
  | isTrue {f : Field} : f.group = .boolean → TestDenotes f [] (.boolean f true)
  | boolean {f : Field} {v : Value} {b : Bool} : f.group = .boolean →
      TargetDenotes TruthDenotes [v] (.equals b) → TestDenotes f [v] (.boolean f b)
  | numeric {f : Field} {params : List Value} {t : Target Double} : f.group = .numeric →
      TargetDenotes NumberDenotes params t → TestDenotes f params (.numeric f t)
  | date {f : Field} {params : List Value} {t : Target Moment} : f.group = .date →
      TargetDenotes MomentDenotes params t → TestDenotes f params (.date f t)
  | text {f : Field} {params : List Value} {p : TextMatch} : f.group = .text →
      TextDenotes params p → TestDenotes f params (.text f p)
  | price {params : List Value} {s : PriceSubField} {t : Option (Target Double)} :
      SubTargetDenotes PriceSubField.label .last NumberDenotes params s t →
      TestDenotes .price params (.price s t)
  | dated {params : List Value} {s : DateSubField} {t : Option (Target Moment)} :
      SubTargetDenotes DateSubField.label .dividend MomentDenotes params s t →
      TestDenotes .date params (.dated s t)
  | altCode {params : List Value} {s : AltCode} {p : Option TextMatch} :
      SubTextDenotes AltCode.tag params s p → TestDenotes .altCode params (.altCode s p)
  | attributes {params : List Value} {s : Attribute} {p : Option TextMatch} :
      SubTextDenotes Attribute.tag params s p → TestDenotes .attributes params (.attributes s p)

section Plain

variable {f : Field} {params : List Value} {t : FieldTest}

theorem testDenotes_boolean (hf : f.group = .boolean) :
    TestDenotes f params t ↔ (params = [] ∧ .boolean f true = t) ∨
      ∃ v b, params = [v] ∧ TargetDenotes TruthDenotes [v] (.equals b) ∧ .boolean f b = t := by
  constructor
  · intro h
    cases h with
    | isTrue _ => exact .inl ⟨rfl, rfl⟩
    | boolean _ hb => exact .inr ⟨_, _, rfl, hb, rfl⟩
    | hasValue _ hg => exact absurd hf hg
    | numeric hg | date hg | text hg => simp [hg] at hf
    | price | dated | altCode | attributes => cases hf
  · rintro (⟨rfl, rfl⟩ | ⟨v, b, rfl, hb, rfl⟩)
    · exact .isTrue hf
    · exact .boolean hf hb

theorem testDenotes_numeric (hf : f.group = .numeric) :
    TestDenotes f params t ↔ (params = [] ∧ .hasValue f = t) ∨
      ∃ u, TargetDenotes NumberDenotes params u ∧ .numeric f u = t := by
  constructor
  · intro h
    cases h with
    | hasValue => exact .inl ⟨rfl, rfl⟩
    | numeric _ hu => exact .inr ⟨_, hu, rfl⟩
    | isTrue hg | boolean hg | date hg | text hg => simp [hg] at hf
    | price | dated | altCode | attributes => cases hf
  · rintro (⟨rfl, rfl⟩ | ⟨u, hu, rfl⟩)
    · exact .hasValue (by simp [Field.isPlain, hf]) (by simp [hf])
    · exact .numeric hf hu

theorem testDenotes_date (hf : f.group = .date) :
    TestDenotes f params t ↔ (params = [] ∧ .hasValue f = t) ∨
      ∃ u, TargetDenotes MomentDenotes params u ∧ .date f u = t := by
  constructor
  · intro h
    cases h with
    | hasValue => exact .inl ⟨rfl, rfl⟩
    | date _ hu => exact .inr ⟨_, hu, rfl⟩
    | isTrue hg | boolean hg | numeric hg | text hg => simp [hg] at hf
    | price | dated | altCode | attributes => cases hf
  · rintro (⟨rfl, rfl⟩ | ⟨u, hu, rfl⟩)
    · exact .hasValue (by simp [Field.isPlain, hf]) (by simp [hf])
    · exact .date hf hu

theorem testDenotes_text (hf : f.group = .text) :
    TestDenotes f params t ↔ (params = [] ∧ .hasValue f = t) ∨
      ∃ p, TextDenotes params p ∧ .text f p = t := by
  constructor
  · intro h
    cases h with
    | hasValue => exact .inl ⟨rfl, rfl⟩
    | text _ hp => exact .inr ⟨_, hp, rfl⟩
    | isTrue hg | boolean hg | numeric hg | date hg => simp [hg] at hf
    | price | dated | altCode | attributes => cases hf
  · rintro (⟨rfl, rfl⟩ | ⟨p, hp, rfl⟩)
    · exact .hasValue (by simp [Field.isPlain, hf]) (by simp [hf])
    · exact .text hf hp

end Plain

section Subbed

variable {params : List Value} {t : FieldTest}

theorem testDenotes_price :
    TestDenotes .price params t ↔
      ∃ s u, SubTargetDenotes PriceSubField.label .last NumberDenotes params s u ∧
        .price s u = t := by
  constructor
  · intro h
    cases h with
    | price h => exact ⟨_, _, h, rfl⟩
    | hasValue hp => cases hp
    | isTrue hg | boolean hg | numeric hg | date hg | text hg => cases hg
  · rintro ⟨s, p, h, rfl⟩
    exact .price h

theorem testDenotes_dated :
    TestDenotes .date params t ↔
      ∃ s u, SubTargetDenotes DateSubField.label .dividend MomentDenotes params s u ∧
        .dated s u = t := by
  constructor
  · intro h
    cases h with
    | dated h => exact ⟨_, _, h, rfl⟩
    | hasValue hp => cases hp
    | isTrue hg | boolean hg | numeric hg | date hg | text hg => cases hg
  · rintro ⟨s, p, h, rfl⟩
    exact .dated h

theorem testDenotes_altCode :
    TestDenotes .altCode params t ↔
      ∃ s p, SubTextDenotes AltCode.tag params s p ∧ .altCode s p = t := by
  constructor
  · intro h
    cases h with
    | altCode h => exact ⟨_, _, h, rfl⟩
    | hasValue hp => cases hp
    | isTrue hg | boolean hg | numeric hg | date hg | text hg => cases hg
  · rintro ⟨s, p, h, rfl⟩
    exact .altCode h

theorem testDenotes_attributes :
    TestDenotes .attributes params t ↔
      ∃ s p, SubTextDenotes Attribute.tag params s p ∧ .attributes s p = t := by
  constructor
  · intro h
    cases h with
    | attributes h => exact ⟨_, _, h, rfl⟩
    | hasValue hp => cases hp
    | isTrue hg | boolean hg | numeric hg | date hg | text hg => cases hg
  · rintro ⟨s, p, h, rfl⟩
    exact .attributes h

end Subbed

end ScanCriteria.Wire
