import ScanCriteria.Proofs.Wire.FieldGrammar

/-!
# Reading field tuples

Each reader of a part of a field tuple accepts what the grammar has for that part and nothing else,
and returns what the grammar says it means. `fieldTest_eq_ok_iff` says so of whole field tuples.
-/
namespace ScanCriteria.Wire
open Json

variable {α σ : Type}

theorem bind_eq_ok {β ε : Type} {x : Except ε α} {f : α → Except ε β} {b : β} :
    (x >>= f) = .ok b ↔ ∃ a, x = .ok a ∧ f a = .ok b := by
  cases x with
  | error e => simp [bind, Except.bind]
  | ok a => simp [bind, Except.bind]

theorem ok_bind {β ε : Type} (a : α) (f : α → Except ε β) : (Except.ok a >>= f) = f a := rfl

theorem pure_eq_ok {ε : Type} {a b : α} : (pure a : Except ε α) = .ok b ↔ a = b := by
  simp [pure, Except.pure]

theorem map_eq_ok {β ε : Type} {x : Except ε α} {f : α → β} {b : β} :
    x.map f = .ok b ↔ ∃ a, x = .ok a ∧ f a = b := by
  cases x with
  | error e => simp [Except.map]
  | ok a => simp [Except.map]

@[simp] theorem fault_ne_ok (cause : Cause) (context : String) (a : α) :
    (fault cause context : Except Fault α) ≠ .ok a := nofun

@[simp] theorem faultAt_ne_ok (cause : Cause) (tag : String) (v : Value) (a : α) :
    (faultAt cause tag v : Except Fault α) ≠ .ok a := nofun

@[simp] theorem faultQuoting_ne_ok (cause : Cause) (tag text : String) (a : α) :
    (faultQuoting cause tag text : Except Fault α) ≠ .ok a := nofun

@[simp] theorem tooManyParameters_ne_ok (tag : String) (n : Nat) (a : α) :
    (tooManyParameters tag n : Except Fault α) ≠ .ok a := nofun

theorem number_eq_ok_iff {tag : String} {v : Value} {x : Double} :
    Literal.number tag v = .ok x ↔ NumberDenotes v x := by
  constructor
  · intro h
    cases v with
    | number n =>
      cases h
      exact .mk n
    | _ => cases h
  · rintro ⟨n⟩
    rfl

theorem moment_eq_ok_iff {tag : String} {v : Value} {a : Moment} :
    Literal.moment tag v = .ok a ↔ MomentDenotes v a := by
  constructor
  · intro h
    cases v with
    | string s =>
      cases hs : Moment.read? s with
      | none => simp [Literal.moment, hs] at h
      | some b =>
        simp only [Literal.moment, hs, Except.ok.injEq] at h
        exact .mk (h ▸ hs)
    | _ => cases h
  · rintro ⟨hs⟩
    simp [Literal.moment, hs]

theorem boolean_eq_ok_iff {tag : String} {v : Value} {b : Bool} :
    Literal.boolean tag v = .ok b ↔ TruthDenotes v b := by
  constructor
  · intro h
    cases v with
    | bool c =>
      cases h
      exact .mk b
    | _ => cases h
  · rintro ⟨b⟩
    rfl

theorem ignoreCase_eq_ok_iff {tag : String} {v : Value} {b : Bool} :
    Literal.ignoreCase tag v = .ok b ↔ TruthDenotes v b := by
  constructor
  · intro h
    cases v with
    | bool c =>
      cases h
      exact .mk b
    | _ => cases h
  · rintro ⟨b⟩
    rfl

theorem anchor_eq_ok_iff {tag : String} {v : Value} {a : Anchor} :
    Literal.anchor tag v = .ok a ↔ AnchorDenotes v a := by
  constructor
  · intro h
    cases v with
    | string s =>
      cases hs : Anchor.ofLabel? s with
      | none => simp [Literal.anchor, hs] at h
      | some b =>
        simp only [Literal.anchor, hs, Except.ok.injEq] at h
        subst h
        exact Anchor.label_of_ofLabel? hs ▸ .mk b
    | _ => cases h
  · rintro ⟨a⟩
    simp [Literal.anchor, Anchor.ofLabel?_label]

theorem text_eq_ok_iff {tag : String} {v : Value} {s : String} :
    Literal.text tag v = .ok s ↔ v = .string s := by
  cases v <;> simp [Literal.text]

theorem isNull_eq_false_iff {v : Value} : v.isNull = false ↔ v ≠ .null := by
  cases v <;> simp [Value.isNull]

theorem find?_here {key : String} {v : Value} (h : v ≠ .null) (rest : Entries Value) :
    Named.find? key ((key, v) :: rest) = some v := by
  simp [Named.find?, isNull_eq_false_iff.mpr h]

theorem find?_there {key : String} {e : String × Value} (h : e.1 = key → e.2 = .null)
    (rest : Entries Value) : Named.find? key (e :: rest) = Named.find? key rest := by
  obtain ⟨k, v⟩ := e
  have hc : ¬(k = key ∧ v.isNull = false) := fun hc => isNull_eq_false_iff.mp hc.2 (h hc.1)
  rw [Named.find?, if_neg hc]

theorem find?_eq_none_iff {key : String} {es : Entries Value} :
    Named.find? key es = none ↔ Absent key es := by
  induction es with
  | nil => simp [Named.find?, Absent]
  | cons e rest ih =>
    rw [Absent, List.forall_mem_cons, ← Absent, ← ih]
    constructor
    · intro h
      have he : e.1 = key → e.2 = .null := by
        rintro rfl
        by_cases hv : e.2 = .null
        · exact hv
        · rw [find?_here hv] at h
          cases h
      exact ⟨he, by rwa [find?_there he] at h⟩
    · rintro ⟨he, h⟩
      rwa [find?_there he]

theorem find?_eq_some_iff {key : String} {v : Value} {es : Entries Value} :
    Named.find? key es = some v ↔ Present key v es := by
  induction es with
  | nil => exact ⟨nofun, nofun⟩
  | cons e rest ih =>
    constructor
    · intro h
      by_cases he : e.1 = key → e.2 = .null
      · rw [find?_there he] at h
        exact .there he (ih.mp h)
      · obtain ⟨rfl, hv⟩ := Classical.not_imp.mp he
        rw [find?_here hv] at h
        cases h
        exact .here hv
    · intro h
      cases h with
      | here hv => exact find?_here hv rest
      | there he hrest => rw [find?_there he, ih.mpr hrest]

section Readers

variable {read : String → Value → Except Fault α} {R : Value → α → Prop} {tag : String}
  (hR : ∀ v a, read tag v = .ok a ↔ R v a)
include hR

theorem optional_eq_ok_iff {key : String} {es : Entries Value} {o : Option α} :
    Named.optional (read tag) (Named.find? key es) = .ok o ↔ NamedDenotes R key es o := by
  constructor
  · intro h
    cases hf : Named.find? key es with
    | none =>
      rw [hf] at h
      cases h
      exact .absent (find?_eq_none_iff.mp hf)
    | some v =>
      rw [hf] at h
      obtain ⟨a, ha, rfl⟩ := map_eq_ok.mp h
      exact .present (find?_eq_some_iff.mp hf) ((hR v a).mp ha)
  · intro h
    cases h with
    | absent hn =>
      rw [find?_eq_none_iff.mpr hn]
      rfl
    | present hv ha =>
      rw [find?_eq_some_iff.mpr hv]
      exact map_eq_ok.mpr ⟨_, (hR _ _).mpr ha, rfl⟩

omit hR in
theorem isSome_of_optional {o : Option Value} {b : Option α}
    (h : Named.optional (read tag) o = .ok b) : b.isSome = o.isSome := by
  cases o with
  | none =>
    cases h
    rfl
  | some v =>
    obtain ⟨a, -, rfl⟩ := map_eq_ok.mp h
    rfl

omit hR in
theorem target_of_range {es : Entries Value} (hat : Named.find? atKey es = none)
    (hne : (Named.find? minKey es).isSome = true ∨ (Named.find? maxKey es).isSome = true) :
    Named.target read tag es = (do
      let min ← Named.optional (read tag) (Named.find? minKey es)
      let max ← Named.optional (read tag) (Named.find? maxKey es)
      return .inRange ⟨min, max⟩) := by
  cases hmin : Named.find? minKey es with
  | some v => simp only [Named.target, hat, hmin]
  | none =>
    cases hmax : Named.find? maxKey es with
    | some v => simp only [Named.target, hat, hmin, hmax]
    | none => simp [hmin, hmax] at hne

theorem target_eq_ok_iff {es : Entries Value} {t : Target α} :
    Named.target read tag es = .ok t ↔ ObjectDenotes R es t := by
  constructor
  · intro h
    cases hat : Named.find? atKey es with
    | some v =>
      cases hmin : Named.find? minKey es with
      | some w => simp [Named.target, hat, hmin] at h
      | none =>
        cases hmax : Named.find? maxKey es with
        | some w => simp [Named.target, hat, hmin, hmax] at h
        | none =>
          simp only [Named.target, hat, hmin, hmax] at h
          obtain ⟨a, ha, rfl⟩ := map_eq_ok.mp h
          exact .value (find?_eq_some_iff.mp hat) (find?_eq_none_iff.mp hmin)
            (find?_eq_none_iff.mp hmax) ((hR v a).mp ha)
    | none =>
      by_cases hne : (Named.find? minKey es).isSome = true ∨ (Named.find? maxKey es).isSome = true
      · rw [target_of_range hat hne] at h
        obtain ⟨min, hmin, h⟩ := bind_eq_ok.mp h
        obtain ⟨max, hmax, h⟩ := bind_eq_ok.mp h
        cases h
        rw [← isSome_of_optional hmin, ← isSome_of_optional hmax] at hne
        exact .range (find?_eq_none_iff.mp hat) ((optional_eq_ok_iff hR).mp hmin)
          ((optional_eq_ok_iff hR).mp hmax) hne
      · simp only [not_or, Bool.not_eq_true, Option.isSome_eq_false_iff, Option.isNone_iff_eq_none]
          at hne
        simp only [Named.target, hat, hne.1, hne.2] at h
        cases h
  · intro h
    cases h with
    | value hat hmin hmax ha =>
      simp only [Named.target, find?_eq_some_iff.mpr hat, find?_eq_none_iff.mpr hmin,
        find?_eq_none_iff.mpr hmax]
      exact map_eq_ok.mpr ⟨_, (hR _ _).mpr ha, rfl⟩
    | @range b hat hmin hmax hne =>
      have hmin' := (optional_eq_ok_iff hR).mpr hmin
      have hmax' := (optional_eq_ok_iff hR).mpr hmax
      rw [Bounds.NonEmpty, isSome_of_optional hmin', isSome_of_optional hmax'] at hne
      rw [target_of_range (find?_eq_none_iff.mpr hat) hne, hmin', hmax']
      rfl

theorem targetOf_eq_ok_iff {v : Value} {t : Target α} :
    Named.targetOf read tag v = .ok t ↔ ∃ es, v = .object es ∧ ObjectDenotes R es t := by
  constructor
  · intro h
    obtain ⟨es, ho, ht⟩ := bind_eq_ok.mp h
    cases v with
    | object es' =>
      cases ho
      exact ⟨es, rfl, (target_eq_ok_iff hR).mp ht⟩
    | _ => cases ho
  · rintro ⟨es, rfl, ht⟩
    exact bind_eq_ok.mpr ⟨es, rfl, (target_eq_ok_iff hR).mpr ht⟩

theorem positionalBound_eq_ok_iff (hnull : ∀ a, ¬R .null a) {v : Value} {o : Option α} :
    positionalBound (read tag) v = .ok o ↔ PositionalDenotes R v o := by
  constructor
  · intro h
    by_cases hv : v = .null
    · subst hv
      cases h
      exact .absent
    · rw [positionalBound, isNull_eq_false_iff.mpr hv] at h
      obtain ⟨a, ha, rfl⟩ := map_eq_ok.mp h
      exact .present ((hR v a).mp ha)
  · intro h
    cases h with
    | absent => rfl
    | @present v a ha =>
      have hv : v ≠ .null := by
        rintro rfl
        exact hnull a ha
      rw [positionalBound, isNull_eq_false_iff.mpr hv]
      exact map_eq_ok.mpr ⟨a, (hR v a).mpr ha, rfl⟩

theorem positionalRange_eq_ok_iff (hnull : ∀ a, ¬R .null a) {v w : Value} {t : Target α} :
    positionalRange read tag v w = .ok t ↔ TargetDenotes R [v, w] t := by
  have hnone {v : Value} {o : Option α} (h : PositionalDenotes R v o) :
      o.isSome = true ↔ v.isNull = false := by
    cases h with
    | absent => simp [Value.isNull]
    | @present v a ha =>
      have hv : v ≠ .null := fun he => hnull a (he ▸ ha)
      simp [isNull_eq_false_iff.mpr hv]
  constructor
  · intro h
    unfold positionalRange at h
    split at h
    · cases h
    · next hne =>
      obtain ⟨min, hmin, h⟩ := bind_eq_ok.mp h
      obtain ⟨max, hmax, h⟩ := bind_eq_ok.mp h
      cases h
      have hmin := (positionalBound_eq_ok_iff hR hnull).mp hmin
      have hmax := (positionalBound_eq_ok_iff hR hnull).mp hmax
      refine .positional hmin hmax ?_
      rw [Bounds.NonEmpty, hnone hmin, hnone hmax]
      rw [Classical.not_and_iff_not_or_not] at hne
      simpa only [Bool.not_eq_true] using hne
  · intro h
    cases h with
    | @positional _ _ b hmin hmax hne =>
      rw [Bounds.NonEmpty, hnone hmin, hnone hmax] at hne
      have hc : ¬(v.isNull = true ∧ w.isNull = true) := by
        rintro ⟨hv, hw⟩
        simp [hv, hw] at hne
      rw [positionalRange, if_neg hc]
      exact bind_eq_ok.mpr ⟨b.min, (positionalBound_eq_ok_iff hR hnull).mpr hmin,
        bind_eq_ok.mpr ⟨b.max, (positionalBound_eq_ok_iff hR hnull).mpr hmax, rfl⟩⟩

end Readers

theorem targetDenotes_single {R : Value → α → Prop} {v : Value} {t : Target α} :
    TargetDenotes R [v] t ↔
      (∃ a, R v a ∧ t = .equals a) ∨ ∃ es, v = .object es ∧ ObjectDenotes R es t := by
  constructor
  · intro h
    cases h with
    | literal ha => exact .inl ⟨_, ha, rfl⟩
    | named ht => exact .inr ⟨_, rfl, ht⟩
  · rintro (⟨a, ha, rfl⟩ | ⟨es, rfl, ht⟩)
    · exact .literal ha
    · exact .named ht

theorem not_numberDenotes_null (x : Double) : ¬NumberDenotes .null x := nofun

theorem not_momentDenotes_null (a : Moment) : ¬MomentDenotes .null a := nofun

theorem priceTarget_eq_ok_iff {tag : String} {v : Value} {t : Target Double} :
    SubbedField.priceTarget tag v = .ok t ↔ TargetDenotes NumberDenotes [v] t := by
  rw [targetDenotes_single]
  cases v with
  | number n =>
    constructor
    · intro h
      cases h
      exact .inl ⟨_, .mk n, rfl⟩
    · rintro (⟨a, ⟨⟩, rfl⟩ | ⟨es, ⟨⟩, -⟩)
      rfl
  | _ =>
    rw [SubbedField.priceTarget, targetOf_eq_ok_iff fun _ _ => number_eq_ok_iff]
    · constructor
      · exact .inr
      · rintro (⟨a, ⟨⟩, -⟩ | h)
        exact h
    · intro n hn
      cases hn

theorem dateTarget_eq_ok_iff {tag : String} {v : Value} {t : Target Moment} :
    SubbedField.dateTarget tag v = .ok t ↔ TargetDenotes MomentDenotes [v] t := by
  rw [targetDenotes_single]
  cases v with
  | string s =>
    rw [SubbedField.dateTarget, map_eq_ok]
    constructor
    · rintro ⟨a, ha, rfl⟩
      exact .inl ⟨a, moment_eq_ok_iff.mp ha, rfl⟩
    · rintro (⟨a, ha, rfl⟩ | ⟨es, ⟨⟩, -⟩)
      exact ⟨a, moment_eq_ok_iff.mpr ha, rfl⟩
  | _ =>
    rw [SubbedField.dateTarget, targetOf_eq_ok_iff fun _ _ => moment_eq_ok_iff]
    · constructor
      · exact .inr
      · rintro (⟨a, ⟨⟩, -⟩ | h)
        exact h
    · intro s hs
      cases hs

theorem textOptions_eq_ok_iff {tag : String} {v : Value} {anchor : Anchor} {ignoreCase : Bool} :
    Named.textOptions tag v = .ok (anchor, ignoreCase) ↔
      ∃ es a i, v = .object es ∧ NamedDenotes AnchorDenotes asKey es a ∧
        NamedDenotes TruthDenotes ignoreCaseKey es i ∧ anchor = a.getD .anywhere ∧
        ignoreCase = i.getD false := by
  constructor
  · intro h
    obtain ⟨es, ho, h⟩ := bind_eq_ok.mp h
    obtain ⟨a, ha, h⟩ := bind_eq_ok.mp h
    obtain ⟨i, hi, h⟩ := bind_eq_ok.mp h
    cases h
    cases v with
    | object es' =>
      cases ho
      exact ⟨es, a, i, rfl, (optional_eq_ok_iff fun _ _ => anchor_eq_ok_iff).mp ha,
        (optional_eq_ok_iff fun _ _ => ignoreCase_eq_ok_iff).mp hi, rfl, rfl⟩
    | _ => cases ho
  · rintro ⟨es, a, i, rfl, ha, hi, rfl, rfl⟩
    exact bind_eq_ok.mpr ⟨es, rfl, bind_eq_ok.mpr
      ⟨a, (optional_eq_ok_iff fun _ _ => anchor_eq_ok_iff).mpr ha, bind_eq_ok.mpr
        ⟨i, (optional_eq_ok_iff fun _ _ => ignoreCase_eq_ok_iff).mpr hi, rfl⟩⟩⟩

theorem textMatch_eq_ok_iff {tag : String} {n : Nat} {params : List Value} {p : TextMatch} :
    textMatch tag n params = .ok p ↔ TextDenotes params p := by
  constructor
  · intro h
    unfold textMatch at h
    split at h
    · obtain ⟨s, hs, h⟩ := bind_eq_ok.mp h
      cases h
      rw [text_eq_ok_iff.mp hs]
      exact .alone s
    · obtain ⟨⟨anchor, ignoreCase⟩, ho, h⟩ := bind_eq_ok.mp h
      obtain ⟨s, hs, h⟩ := bind_eq_ok.mp h
      cases h
      obtain ⟨es, a, i, rfl, ha, hi, rfl, rfl⟩ := textOptions_eq_ok_iff.mp ho
      rw [text_eq_ok_iff.mp hs]
      exact .named s ha hi
    · obtain ⟨s, hs, h⟩ := bind_eq_ok.mp h
      obtain ⟨a, ha, h⟩ := bind_eq_ok.mp h
      obtain ⟨i, hi, h⟩ := bind_eq_ok.mp h
      cases h
      rw [text_eq_ok_iff.mp hs]
      cases anchor_eq_ok_iff.mp ha
      cases ignoreCase_eq_ok_iff.mp hi
      exact .positional s a i
    · cases h
  · intro h
    cases h with
    | alone s => rfl
    | named s ha hi =>
      exact bind_eq_ok.mpr ⟨_, textOptions_eq_ok_iff.mpr ⟨_, _, _, rfl, ha, hi, rfl, rfl⟩, rfl⟩
    | positional s a i =>
      exact bind_eq_ok.mpr ⟨s, rfl, bind_eq_ok.mpr ⟨a, anchor_eq_ok_iff.mpr (.mk a), rfl⟩⟩

section Plain

variable {f : Field} {tag : String} {params : List Value} {t : FieldTest}

theorem boolean_single_eq_ok_iff {v : Value} :
    PlainField.boolean f tag [v] = .ok t ↔
      ∃ b, TargetDenotes TruthDenotes [v] (.equals b) ∧ .boolean f b = t := by
  simp only [targetDenotes_single]
  cases v with
  | object es =>
    have hobject (target : Target Bool) : Named.targetOf Literal.boolean tag (.object es) =
        .ok target ↔ ∃ es', Value.object es = .object es' ∧ ObjectDenotes TruthDenotes es' target :=
      targetOf_eq_ok_iff fun _ _ => boolean_eq_ok_iff
    constructor
    · intro h
      obtain ⟨target, ht, h⟩ := bind_eq_ok.mp h
      cases target with
      | equals b =>
        cases h
        exact ⟨b, .inr ((hobject _).mp ht), rfl⟩
      | inRange b => cases h
    · rintro ⟨b, ⟨_, ⟨⟩, _⟩ | ht, rfl⟩
      exact bind_eq_ok.mpr ⟨_, (hobject _).mpr ht, rfl⟩
  | bool c =>
    constructor
    · intro h
      cases h
      exact ⟨c, .inl ⟨c, .mk c, rfl⟩, rfl⟩
    · rintro ⟨b, ⟨_, ⟨⟩, ⟨⟩⟩ | ⟨_, ⟨⟩, _⟩, rfl⟩
      rfl
  | _ =>
    constructor
    · intro h
      cases h
    · rintro ⟨_, ⟨_, ⟨⟩, _⟩ | ⟨_, ⟨⟩, _⟩, _⟩

theorem plainBoolean_eq_ok_iff (hf : f.group = .boolean) :
    PlainField.boolean f tag params = .ok t ↔ TestDenotes f params t := by
  rw [testDenotes_boolean hf]
  rcases params with _ | ⟨v, _ | ⟨w, rest⟩⟩
  · simp [PlainField.boolean]
  · rw [boolean_single_eq_ok_iff]
    simp
  · have hmore : PlainField.boolean f tag (v :: w :: rest) ≠ .ok t := by
      cases v <;> simp [PlainField.boolean]
    simp [hmore]

theorem numeric_single (v : Value) :
    PlainField.numeric f tag [v] = (SubbedField.priceTarget tag v).map (.numeric f) := by
  cases v <;> rfl

theorem numeric_pair (v w : Value) :
    PlainField.numeric f tag [v, w] =
      (positionalRange Literal.number tag v w).map (.numeric f) := by
  cases v <;> rfl

theorem date_single (v : Value) :
    PlainField.date f tag [v] = (SubbedField.dateTarget tag v).map (.date f) := by
  cases v with
  | string s =>
    simp only [PlainField.date, SubbedField.dateTarget]
    cases Literal.moment tag (.string s) <;> rfl
  | _ => rfl

theorem date_pair (v w : Value) :
    PlainField.date f tag [v, w] =
      (positionalRange Literal.moment tag v w).map (.date f) := by
  cases v <;> rfl

theorem numericRange_eq_ok_iff {v w : Value} {t : Target Double} :
    positionalRange Literal.number tag v w = .ok t ↔ TargetDenotes NumberDenotes [v, w] t :=
  positionalRange_eq_ok_iff (fun _ _ => number_eq_ok_iff) not_numberDenotes_null

theorem dateRange_eq_ok_iff {v w : Value} {t : Target Moment} :
    positionalRange Literal.moment tag v w = .ok t ↔ TargetDenotes MomentDenotes [v, w] t :=
  positionalRange_eq_ok_iff (fun _ _ => moment_eq_ok_iff) not_momentDenotes_null

/-- A test is read from one parameter or two as its target is. -/
structure ReadsTarget (R : Value → α → Prop) (read : List Value → Except Fault FieldTest)
    (test : Target α → FieldTest) : Prop where
  one (v : Value) (t : FieldTest) :
    read [v] = .ok t ↔ ∃ u, TargetDenotes R [v] u ∧ test u = t
  two (v w : Value) (t : FieldTest) :
    read [v, w] = .ok t ↔ ∃ u, TargetDenotes R [v, w] u ∧ test u = t
  more (v w x : Value) (rest : List Value) (t : FieldTest) : read (v :: w :: x :: rest) ≠ .ok t

theorem not_targetDenotes_nil {R : Value → α → Prop} (u : Target α) : ¬TargetDenotes R [] u := by
  intro h
  cases h

theorem ReadsTarget.eq_ok_iff {R : Value → α → Prop} {read : List Value → Except Fault FieldTest}
    {test : Target α → FieldTest} (h : ReadsTarget R read test) (hp : params ≠ []) :
    read params = .ok t ↔ ∃ u, TargetDenotes R params u ∧ test u = t := by
  rcases params with _ | ⟨v, _ | ⟨w, _ | ⟨x, rest⟩⟩⟩
  · exact absurd rfl hp
  · exact h.one v t
  · exact h.two v w t
  · apply iff_of_false (h.more v w x rest t)
    rintro ⟨u, hu, -⟩
    cases hu

theorem readsTarget_numeric :
    ReadsTarget NumberDenotes (PlainField.numeric f tag) (.numeric f) where
  one v t := by simp only [numeric_single, map_eq_ok, priceTarget_eq_ok_iff]
  two v w t := by simp only [numeric_pair, map_eq_ok, numericRange_eq_ok_iff]
  more v w x rest t := by cases v <;> simp [PlainField.numeric]

theorem readsTarget_date :
    ReadsTarget MomentDenotes (PlainField.date f tag) (.date f) where
  one v t := by simp only [date_single, map_eq_ok, dateTarget_eq_ok_iff]
  two v w t := by simp only [date_pair, map_eq_ok, dateRange_eq_ok_iff]
  more v w x rest t := by cases v <;> simp [PlainField.date]

theorem plainNumeric_eq_ok_iff (hf : f.group = .numeric) :
    PlainField.numeric f tag params = .ok t ↔ TestDenotes f params t := by
  rw [testDenotes_numeric hf]
  cases params with
  | nil => simp [PlainField.numeric, not_targetDenotes_nil]
  | cons v rest => simp [readsTarget_numeric.eq_ok_iff]

theorem plainDate_eq_ok_iff (hf : f.group = .date) :
    PlainField.date f tag params = .ok t ↔ TestDenotes f params t := by
  rw [testDenotes_date hf]
  cases params with
  | nil => simp [PlainField.date, not_targetDenotes_nil]
  | cons v rest => simp [readsTarget_date.eq_ok_iff]

theorem plainText_eq_ok_iff (hf : f.group = .text) :
    PlainField.text f tag params = .ok t ↔ TestDenotes f params t := by
  rw [testDenotes_text hf]
  cases params with
  | nil =>
    have hnil (p : TextMatch) : ¬TextDenotes [] p := by
      intro h
      cases h
    simp [PlainField.text, hnil]
  | cons v rest => simp [PlainField.text, map_eq_ok, textMatch_eq_ok_iff]

theorem plainField_eq_ok_iff (hf : f.isPlain = true) :
    plainField f tag params = .ok t ↔ TestDenotes f params t := by
  cases hg : f.group with
  | numeric =>
    have hd : f.dataType = .numeric := by cases f <;> first | rfl | cases hg
    rw [plainField, hd, plainNumeric_eq_ok_iff hg]
  | text =>
    have hd : f.dataType = .text := by cases f <;> first | rfl | cases hg
    rw [plainField, hd, plainText_eq_ok_iff hg]
  | date =>
    have hd : f.dataType = .date := by cases f <;> first | rfl | cases hg
    rw [plainField, hd, plainDate_eq_ok_iff hg]
  | boolean =>
    have hd : f.dataType = .boolean := by cases f <;> first | rfl | cases hg
    rw [plainField, hd, plainBoolean_eq_ok_iff hg]
  | subbed => simp [Field.isPlain, hg] at hf

end Plain

section Subbed

variable {tag : String} {params : List Value} {t : FieldTest}

theorem subField_eq_ok_iff {ofText? : String → Option σ} {name : σ → String} {unknown : Cause}
    (hname : ∀ s a, ofText? s = some a ↔ name a = s) {v : Value} {a : σ} :
    subField ofText? unknown tag v = .ok a ↔ v = .string (name a) := by
  constructor
  · intro h
    cases v with
    | string s =>
      cases hs : ofText? s with
      | none => simp [subField, hs] at h
      | some b =>
        simp only [subField, hs, Except.ok.injEq] at h
        subst h
        rw [(hname s b).mp hs]
    | _ => cases h
  · rintro rfl
    simp [subField, (hname (name a) a).mpr rfl]

theorem priceSub_eq_ok_iff {v : Value} {s : PriceSubField} :
    SubbedField.priceSub tag v = .ok s ↔ v = .string s.label :=
  subField_eq_ok_iff fun _ _ => PriceSubField.ofLabel?_eq_some_iff

theorem dateSub_eq_ok_iff {v : Value} {s : DateSubField} :
    SubbedField.dateSub tag v = .ok s ↔ v = .string s.label :=
  subField_eq_ok_iff fun _ _ => DateSubField.ofLabel?_eq_some_iff

/-- A test is read as the grammar has it of a subbed field whose sub-field may be left out. -/
structure ReadsSubTarget (name : σ → String) (default : σ) (R : Value → α → Prop)
    (read : List Value → Except Fault FieldTest) (test : σ → Option (Target α) → FieldTest) :
    Prop where
  nothing : read [] = .ok (test default none)
  sub (s : σ) : read [.string (name s)] = .ok (test s none)
  target (v : Value) (hv : ∀ s, v ≠ .string (name s)) (t : FieldTest) :
    read [v] = .ok t ↔ ∃ u, TargetDenotes R [v] u ∧ test default (some u) = t
  subTarget (s : σ) :
    ReadsTarget R (fun rest => read (.string (name s) :: rest)) fun u => test s (some u)
  other (v w : Value) (rest : List Value) (hv : ∀ s, v ≠ .string (name s)) (t : FieldTest) :
    read (v :: w :: rest) ≠ .ok t
  not_denotes (s : σ) (u : Target α) : ¬TargetDenotes R [.string (name s)] u

theorem ReadsSubTarget.eq_ok_iff {name : σ → String} {default : σ} {R : Value → α → Prop}
    {read : List Value → Except Fault FieldTest} {test : σ → Option (Target α) → FieldTest}
    (hr : ReadsSubTarget name default R read test) :
    read params = .ok t ↔ ∃ s u, SubTargetDenotes name default R params s u ∧ test s u = t := by
  constructor
  · intro h
    cases params with
    | nil =>
      rw [hr.nothing] at h
      cases h
      exact ⟨default, none, .nothing, rfl⟩
    | cons v rest =>
      by_cases hv : ∃ s, v = .string (name s)
      · obtain ⟨s, rfl⟩ := hv
        cases rest with
        | nil =>
          rw [hr.sub] at h
          cases h
          exact ⟨s, none, .sub s, rfl⟩
        | cons w rest =>
          obtain ⟨u, hu, rfl⟩ := ((hr.subTarget s).eq_ok_iff (List.cons_ne_nil w rest)).mp h
          exact ⟨s, some u, .subTarget s hu, rfl⟩
      · have hv := not_exists.mp hv
        cases rest with
        | nil =>
          obtain ⟨u, hu, rfl⟩ := (hr.target v hv t).mp h
          exact ⟨default, some u, .target hu, rfl⟩
        | cons w rest => exact absurd h (hr.other v w rest hv t)
  · rintro ⟨s, u, h, rfl⟩
    cases h with
    | nothing => exact hr.nothing
    | sub => exact hr.sub s
    | @target v u hu =>
      have hv (s : σ) : v ≠ .string (name s) := by
        rintro rfl
        exact hr.not_denotes s u hu
      exact (hr.target v hv _).mpr ⟨u, hu, rfl⟩
    | @subTarget _ rest u hu =>
      have hrest : rest ≠ [] := by
        rintro rfl
        exact not_targetDenotes_nil u hu
      exact ((hr.subTarget s).eq_ok_iff hrest).mpr ⟨u, hu, rfl⟩

theorem readsSubTarget_price :
    ReadsSubTarget PriceSubField.label .last NumberDenotes (SubbedField.price tag) .price where
  nothing := rfl
  sub s := by rw [SubbedField.price, priceSub_eq_ok_iff.mpr rfl, Except.map]
  target v hv t := by
    cases v with
    | string s =>
      apply iff_of_false
      · intro h
        obtain ⟨sub, hs, -⟩ := map_eq_ok.mp h
        exact hv sub (priceSub_eq_ok_iff.mp hs)
      · rintro ⟨u, hu, -⟩
        obtain ⟨_, ⟨⟩, _⟩ | ⟨_, ⟨⟩, _⟩ := targetDenotes_single.mp hu
    | _ => simp [SubbedField.price, map_eq_ok, priceTarget_eq_ok_iff]
  subTarget s := by
    have hs : SubbedField.priceSub tag (.string s.label) = .ok s := priceSub_eq_ok_iff.mpr rfl
    exact {
      one v t := by
        rw [SubbedField.price, hs, ok_bind, bind_eq_ok]
        simp only [priceTarget_eq_ok_iff, pure_eq_ok]
      two v w t := by
        rw [SubbedField.price, hs, ok_bind, bind_eq_ok]
        simp only [numericRange_eq_ok_iff, pure_eq_ok]
      more v w x rest t := by simp [SubbedField.price] }
  other v w rest hv t := by
    have hsub (sub : PriceSubField) : SubbedField.priceSub tag v ≠ .ok sub :=
      fun h => hv sub (priceSub_eq_ok_iff.mp h)
    rcases rest with _ | ⟨x, _ | ⟨y, rest⟩⟩ <;> simp [SubbedField.price, bind_eq_ok, hsub]
  not_denotes s u h := by
    obtain ⟨_, ⟨⟩, _⟩ | ⟨_, ⟨⟩, _⟩ := targetDenotes_single.mp h

theorem price_eq_ok_iff :
    SubbedField.price tag params = .ok t ↔ TestDenotes .price params t := by
  rw [readsSubTarget_price.eq_ok_iff, testDenotes_price]

/-- The name of no sub-field is a date. -/
theorem not_momentDenotes_dateSub (s : DateSubField) (a : Moment) :
    ¬MomentDenotes (.string s.label) a := by
  have hnone : Moment.read? s.label = none := by
    cases s
    decide
  rintro ⟨ha⟩
  rw [hnone] at ha
  cases ha

theorem readsSubTarget_dated :
    ReadsSubTarget DateSubField.label .dividend MomentDenotes (SubbedField.dated tag) .dated where
  nothing := rfl
  sub s := by simp only [SubbedField.dated, DateSubField.ofLabel?_eq_some_iff.mpr rfl]
  target v hv t := by
    cases v with
    | string s =>
      have hs : DateSubField.ofLabel? s = none := by
        apply Option.eq_none_iff_forall_ne_some.mpr
        intro a ha
        exact hv a (DateSubField.ofLabel?_eq_some_iff.mp ha ▸ rfl)
      simp [SubbedField.dated, hs, map_eq_ok, dateTarget_eq_ok_iff]
    | _ => simp [SubbedField.dated, map_eq_ok, dateTarget_eq_ok_iff]
  subTarget s := by
    have hs : SubbedField.dateSub tag (.string s.label) = .ok s := dateSub_eq_ok_iff.mpr rfl
    exact {
      one v t := by
        rw [SubbedField.dated, hs, ok_bind, bind_eq_ok]
        simp only [dateTarget_eq_ok_iff, pure_eq_ok]
      two v w t := by
        rw [SubbedField.dated, hs, ok_bind, bind_eq_ok]
        simp only [dateRange_eq_ok_iff, pure_eq_ok]
      more v w x rest t := by simp [SubbedField.dated] }
  other v w rest hv t := by
    have hsub (sub : DateSubField) : SubbedField.dateSub tag v ≠ .ok sub :=
      fun h => hv sub (dateSub_eq_ok_iff.mp h)
    rcases rest with _ | ⟨x, _ | ⟨y, rest⟩⟩ <;> simp [SubbedField.dated, bind_eq_ok, hsub]
  not_denotes s u h := by
    obtain ⟨a, ha, -⟩ | ⟨_, ⟨⟩, _⟩ := targetDenotes_single.mp h
    exact not_momentDenotes_dateSub s a ha

theorem dated_eq_ok_iff :
    SubbedField.dated tag params = .ok t ↔ TestDenotes .date params t := by
  rw [readsSubTarget_dated.eq_ok_iff, testDenotes_dated]

theorem named_eq_ok_iff {ofText? : String → Option σ} {name : σ → String} {unknown : Cause}
    {test : σ → Option TextMatch → FieldTest} (hname : ∀ s a, ofText? s = some a ↔ name a = s) :
    SubbedField.named ofText? unknown test tag params = .ok t ↔
      ∃ s p, SubTextDenotes name params s p ∧ test s p = t := by
  cases params with
  | nil =>
    constructor
    · intro h
      cases h
    · rintro ⟨_, _, ⟨⟩, _⟩
  | cons v rest =>
    constructor
    · intro h
      obtain ⟨s, hs, h⟩ := bind_eq_ok.mp h
      rw [(subField_eq_ok_iff hname).mp hs]
      cases rest with
      | nil =>
        cases h
        exact ⟨s, none, .sub s, rfl⟩
      | cons w rest =>
        obtain ⟨p, hm, h⟩ := bind_eq_ok.mp h
        cases h
        exact ⟨s, some p, .subText s (textMatch_eq_ok_iff.mp hm), rfl⟩
    · rintro ⟨s, p, h, rfl⟩
      cases h with
      | sub => exact bind_eq_ok.mpr ⟨s, (subField_eq_ok_iff hname).mpr rfl, rfl⟩
      | @subText _ _ p hm =>
        refine bind_eq_ok.mpr ⟨s, (subField_eq_ok_iff hname).mpr rfl, ?_⟩
        cases rest with
        | nil => cases hm
        | cons w rest => exact bind_eq_ok.mpr ⟨p, textMatch_eq_ok_iff.mpr hm, rfl⟩

theorem altCode_eq_ok_iff :
    SubbedField.altCode tag params = .ok t ↔ TestDenotes .altCode params t := by
  rw [SubbedField.altCode, named_eq_ok_iff fun _ _ => AltCode.ofTag?_eq_some_iff,
    testDenotes_altCode]

theorem attributes_eq_ok_iff :
    SubbedField.attributes tag params = .ok t ↔ TestDenotes .attributes params t := by
  rw [SubbedField.attributes, named_eq_ok_iff fun _ _ => Attribute.ofTag?_eq_some_iff,
    testDenotes_attributes]

end Subbed

theorem fieldTest_of_plain {f : Field} (hf : f.isPlain = true) (params : List Value) :
    fieldTest f.tag params = plainField f f.tag params := by
  rw [fieldTest, Field.ofTag?_tag]
  cases f <;> first | rfl | cases hf

theorem fieldTest_eq_ok_iff {tag : String} {params : List Value} {t : FieldTest} :
    fieldTest tag params = .ok t ↔ ∃ f : Field, f.tag = tag ∧ TestDenotes f params t := by
  have htag (f : Field) : fieldTest f.tag params = .ok t ↔ TestDenotes f params t := by
    cases hf : f.isPlain with
    | true => rw [fieldTest_of_plain hf, plainField_eq_ok_iff hf]
    | false =>
      rw [fieldTest, Field.ofTag?_tag]
      cases f with
      | price => exact price_eq_ok_iff
      | date => exact dated_eq_ok_iff
      | altCode => exact altCode_eq_ok_iff
      | attributes => exact attributes_eq_ok_iff
      | _ => cases hf
  constructor
  · intro h
    cases hf : Field.ofTag? tag with
    | none => simp [fieldTest, hf] at h
    | some f =>
      obtain rfl := Field.tag_of_ofTag? hf
      exact ⟨f, rfl, (htag f).mp h⟩
  · rintro ⟨f, rfl, h⟩
    exact (htag f).mpr h

end ScanCriteria.Wire
