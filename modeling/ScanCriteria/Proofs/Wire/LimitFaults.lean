import ScanCriteria.Proofs.Wire.Parts

/-!
# Faults of limits

Limits are held against a tuple when it is entered, and against the arms of a choice before they are
parsed. No other fault is of the class of limits, so a value that keeps to them fails for another
reason, if at all.
-/
namespace ScanCriteria.Wire
open Json

variable {α β : Type}

/-- No fault of the result is of the class of limits. -/
def NoLimit (x : Except Fault α) : Prop := ∀ f, x = .error f → f.faultClass ≠ .limit

namespace NoLimit

theorem ok (a : α) : NoLimit (.ok a) := nofun

theorem fault {cause : Cause} (h : cause.faultClass ≠ .limit) (context : String) :
    NoLimit (Wire.fault cause context : Except Fault α) := by
  rintro f ⟨⟩
  exact h

theorem map {x : Except Fault α} (h : NoLimit x) (g : α → β) : NoLimit (x.map g) := by
  intro f hf
  cases x with
  | ok a => cases hf
  | error e =>
    obtain rfl := Except.error.inj hf
    exact h e rfl

theorem bind {x : Except Fault α} {g : α → Except Fault β} (h : NoLimit x)
    (hg : ∀ a, NoLimit (g a)) : NoLimit (x >>= g) := by
  cases x with
  | ok a => exact hg a
  | error e =>
    rintro f ⟨⟩
    exact h e rfl

end NoLimit

section Parameters

variable (tag : String) (v : Value)

theorem noLimit_number : NoLimit (Literal.number tag v) := by
  cases v with
  | number n => exact .ok _
  | _ => exact .fault (by decide) _

theorem noLimit_moment : NoLimit (Literal.moment tag v) := by
  cases v with
  | string s =>
    rw [Literal.moment]
    split
    · exact .ok _
    · exact .fault (by decide) _
  | _ => exact .fault (by decide) _

theorem noLimit_text : NoLimit (Literal.text tag v) := by
  cases v with
  | string s => exact .ok _
  | _ => exact .fault (by decide) _

theorem noLimit_boolean : NoLimit (Literal.boolean tag v) := by
  cases v with
  | bool b => exact .ok _
  | _ => exact .fault (by decide) _

theorem noLimit_anchor : NoLimit (Literal.anchor tag v) := by
  cases v with
  | string s =>
    rw [Literal.anchor]
    split
    · exact .ok _
    · exact .fault (by decide) _
  | _ => exact .fault (by decide) _

theorem noLimit_ignoreCase : NoLimit (Literal.ignoreCase tag v) := by
  cases v with
  | bool b => exact .ok _
  | _ => exact .fault (by decide) _

theorem noLimit_object : NoLimit (Named.object tag v) := by
  cases v with
  | object es => exact .ok _
  | _ => exact .fault (by decide) _

theorem noLimit_optional {read : Value → Except Fault α} (h : ∀ v, NoLimit (read v)) :
    ∀ o, NoLimit (Named.optional read o)
  | none => .ok _
  | some v => (h v).map _

section Targets

variable {read : String → Value → Except Fault α} (h : ∀ v, NoLimit (read tag v))
include h

theorem noLimit_targetOf : NoLimit (Named.targetOf read tag v) := by
  apply (noLimit_object tag v).bind
  intro es
  unfold Named.target
  split
  · exact (h _).map _
  · exact .fault (by decide) _
  · exact .fault (by decide) _
  · exact (noLimit_optional h _).bind fun _ => (noLimit_optional h _).bind fun _ => .ok _

theorem noLimit_positionalRange (min max : Value) :
    NoLimit (positionalRange read tag min max) := by
  unfold positionalRange
  split
  · exact .fault (by decide) _
  · exact (noLimit_optional h _).bind fun _ => (noLimit_optional h _).bind fun _ => .ok _

end Targets

theorem noLimit_textOptions : NoLimit (Named.textOptions tag v) := by
  apply (noLimit_object tag v).bind
  intro es
  exact (noLimit_optional (noLimit_anchor tag) _).bind fun _ =>
    (noLimit_optional (noLimit_ignoreCase tag) _).bind fun _ => .ok _

end Parameters

section Tuples

variable (tag : String) (params : List Value)

theorem noLimit_textMatch (n : Nat) : NoLimit (textMatch tag n params) := by
  unfold textMatch
  split
  · exact (noLimit_text tag _).bind fun _ => .ok _
  · exact (noLimit_textOptions tag _).bind fun _ => (noLimit_text tag _).bind fun _ => .ok _
  · exact (noLimit_text tag _).bind fun _ => (noLimit_anchor tag _).bind fun _ =>
      (noLimit_ignoreCase tag _).bind fun _ => .ok _
  · exact .fault (by decide) _

theorem noLimit_plain_boolean (f : Field) : NoLimit (PlainField.boolean f tag params) := by
  have hnamed (v : Value) (g : Target Bool → Except Fault FieldTest)
      (hvalue : ∀ b, NoLimit (g (.equals b))) (hrange : ∀ b, NoLimit (g (.inRange b))) :
      NoLimit (Named.targetOf Literal.boolean tag v >>= g) := by
    apply (noLimit_targetOf tag v (noLimit_boolean tag)).bind
    rintro (b | b)
    · exact hvalue b
    · exact hrange b
  unfold PlainField.boolean
  split
  · exact .ok _
  · split
    · exact hnamed _ _ (fun _ => .ok _) fun _ => .fault (by decide) _
    · exact hnamed _ _ (fun _ => .ok _) fun _ => .fault (by decide) _
    · exact (noLimit_boolean tag _).map _
  · exact .fault (by decide) _

theorem noLimit_plain_numeric (f : Field) : NoLimit (PlainField.numeric f tag params) := by
  unfold PlainField.numeric
  split
  · exact .ok _
  · exact .ok _
  · exact (noLimit_targetOf tag _ (noLimit_number tag)).map _
  · exact (noLimit_positionalRange tag (noLimit_number tag) _ _).map _
  · exact .fault (by decide) _

theorem noLimit_plain_date (f : Field) : NoLimit (PlainField.date f tag params) := by
  unfold PlainField.date
  split
  · exact .ok _
  · exact (noLimit_moment tag _).map _
  · exact (noLimit_targetOf tag _ (noLimit_moment tag)).map _
  · exact (noLimit_positionalRange tag (noLimit_moment tag) _ _).map _
  · exact .fault (by decide) _

theorem noLimit_plainField (f : Field) : NoLimit (plainField f tag params) := by
  unfold plainField
  split
  · exact noLimit_plain_boolean tag params f
  · exact noLimit_plain_numeric tag params f
  · exact noLimit_plain_date tag params f
  · cases params with
    | nil => exact .ok _
    | cons v vs => exact (noLimit_textMatch tag _ _).map _

theorem noLimit_subField {ofText? : String → Option α} {unknown : Cause}
    (h : unknown.faultClass ≠ .limit) (v : Value) : NoLimit (subField ofText? unknown tag v) := by
  cases v with
  | string s =>
    rw [subField]
    split
    · exact .ok _
    · exact .fault h _
  | _ => exact .fault (by decide) _

theorem noLimit_priceTarget (v : Value) : NoLimit (SubbedField.priceTarget tag v) := by
  unfold SubbedField.priceTarget
  split
  · exact .ok _
  · exact noLimit_targetOf tag _ (noLimit_number tag)

theorem noLimit_dateTarget (v : Value) : NoLimit (SubbedField.dateTarget tag v) := by
  unfold SubbedField.dateTarget
  split
  · exact (noLimit_moment tag _).map _
  · exact noLimit_targetOf tag _ (noLimit_moment tag)

theorem noLimit_price : NoLimit (SubbedField.price tag params) := by
  have hsub (v : Value) : NoLimit (SubbedField.priceSub tag v) := noLimit_subField tag (by decide) v
  unfold SubbedField.price
  split
  · exact .ok _
  · exact (hsub _).map _
  · exact (noLimit_priceTarget tag _).map _
  · exact (hsub _).bind fun _ => (noLimit_priceTarget tag _).bind fun _ => .ok _
  · exact (hsub _).bind fun _ =>
      (noLimit_positionalRange tag (noLimit_number tag) _ _).bind fun _ => .ok _
  · exact .fault (by decide) _

theorem noLimit_dated : NoLimit (SubbedField.dated tag params) := by
  have hsub (v : Value) : NoLimit (SubbedField.dateSub tag v) := noLimit_subField tag (by decide) v
  unfold SubbedField.dated
  split
  · exact .ok _
  · split
    · split
      · exact .ok _
      · exact (noLimit_dateTarget tag _).map _
    · exact (noLimit_dateTarget tag _).map _
  · exact (hsub _).bind fun _ => (noLimit_dateTarget tag _).bind fun _ => .ok _
  · exact (hsub _).bind fun _ =>
      (noLimit_positionalRange tag (noLimit_moment tag) _ _).bind fun _ => .ok _
  · exact .fault (by decide) _

theorem noLimit_named {ofText? : String → Option α} {unknown : Cause}
    {test : α → Option TextMatch → FieldTest} (h : unknown.faultClass ≠ .limit) :
    NoLimit (SubbedField.named ofText? unknown test tag params) := by
  unfold SubbedField.named
  split
  · exact .fault (by decide) _
  · apply (noLimit_subField tag h _).bind
    intro sub
    split
    · exact .ok _
    · exact (noLimit_textMatch tag _ _).bind fun _ => .ok _

theorem noLimit_fieldTest : NoLimit (fieldTest tag params) := by
  unfold fieldTest
  split
  · exact .fault (by decide) _
  · exact noLimit_price tag params
  · exact noLimit_dated tag params
  · exact noLimit_named tag params (by decide)
  · exact noLimit_named tag params (by decide)
  · exact noLimit_plainField tag params _

theorem noLimit_criterionBody : NoLimit (criterionBody tag params) := by
  unfold criterionBody
  split
  · exact (noLimit_fieldTest tag params).map _
  all_goals split
  all_goals first
    | exact .ok _
    | exact .fault (by decide) _

theorem choiceFault?_limit {n : Nat} {f : Fault} (h : choiceFault? n = some f)
    (hf : f.faultClass = .limit) :
    f.cause = .numericIfArmLimitExceeded ∧ Limits.arms < n / 2 := by
  unfold choiceFault? at h
  split at h
  · cases h
    cases hf
  · split at h
    · next harms =>
      cases h
      exact ⟨rfl, harms⟩
    · cases h

/-- Of the parameters of a numeric tuple only the arms of a choice are limited. -/
theorem operandBody_limit {f : Fault} (h : operandBody tag params = .error f)
    (hf : f.faultClass = .limit) :
    f.cause = .numericIfArmLimitExceeded ∧ ¬armsFit tag params := by
  have hfault {c : Cause} {context : String} (hc : c.faultClass ≠ .limit) :
      (fault c context : Except Fault Body) ≠ .error f :=
    fun he => NoLimit.fault hc context f he hf
  unfold operandBody at h
  split at h
  · exact absurd h (hfault (by decide))
  · split at h
    · cases h
    · exact absurd h (hfault (by decide))
  · split at h
    · cases h
    · exact absurd h (hfault (by decide))
  · next ht =>
    split at h
    · next g hg =>
      cases h
      obtain ⟨hcause, harms⟩ := choiceFault?_limit hg hf
      refine ⟨hcause, fun hfit => ?_⟩
      have hle := hfit (OperandTag.text_of_ofText? ht).symm
      omega
    · cases h

end Tuples

theorem missingTag_faultClass (items : List Value) : (missingTag items).faultClass ≠ .limit := by
  cases items <;> exact nofun

theorem Part.refused_faultClass {x : Part} {f : Fault} (h : x.form = .refused f) :
    f.faultClass ≠ .limit := by
  revert h
  fun_cases Part.form x with
  | case1 | case4 | case5 | case7 =>
    intro h
    cases h
  | case2 items | case8 items =>
    intro h
    cases h
    exact missingTag_faultClass items
  | case3 | case6 | case9 =>
    intro h
    cases h
    intro hclass
    cases hclass

/-- Once a tuple has been entered, what is in it has a fault of limits only if it has too many
arms. -/
theorem Part.body_limit {x : Part} {tag : String} {params : List Value} {f : Fault}
    (h : x.form = .tuple tag params (.error f)) (hf : f.faultClass = .limit) :
    f.cause = .numericIfArmLimitExceeded ∧ ¬armsFit tag params := by
  obtain ⟨-, hb⟩ | ⟨-, hb⟩ := form_eq_tuple_iff.mp h
  · exact absurd hf (noLimit_criterionBody tag params f hb)
  · exact operandBody_limit tag params hb hf

/-- Which limit a tuple exceeds. -/
theorem exceededLimit?_eq_some {tag : String} {length : Nat} {p : Progress} {f : Fault}
    (h : exceededLimit? tag length p = some f) :
    f.cause = .tupleDepthLimitExceeded ∧ Limits.depth < p.depth ∨
      f.cause = .tupleNodeCountLimitExceeded ∧ p.depth ≤ Limits.depth ∧
        Limits.nodes < p.nodeCount ∨
      f.cause = .tupleLengthLimitExceeded ∧ p.depth ≤ Limits.depth ∧ p.nodeCount ≤ Limits.nodes ∧
        Limits.length < length := by
  unfold exceededLimit? at h
  split at h
  · next hd =>
    cases h
    exact .inl ⟨rfl, hd⟩
  · next hd =>
    split at h
    · next hn =>
      cases h
      exact .inr (.inl ⟨rfl, Nat.le_of_not_lt hd, hn⟩)
    · next hn =>
      split at h
      · next hl =>
        cases h
        exact .inr (.inr ⟨rfl, Nat.le_of_not_lt hd, Nat.le_of_not_lt hn, hl⟩)
      · cases h

/-- A part that is parsed counts the tuples of its value and leaves them. -/
theorem runs_counts (x : Part) {p q : Progress} (h : Runs x.parse p () q) :
    q.depth = p.depth ∧ q.nodeCount = p.nodeCount + (tuplesAt (p.depth + 1) x.value).length := by
  cases x with
  | criterion v =>
    obtain ⟨c, hc⟩ := runs_criterion_part.mp h
    have hyields := (accepted v).criterion
    exact ⟨hyields.depth_eq hc, hyields.nodeCount_eq hc⟩
  | operand v =>
    obtain ⟨a, ha⟩ := runs_operand_part.mp h
    have hyields := (accepted v).operand
    exact ⟨hyields.depth_eq ha, hyields.nodeCount_eq ha⟩

theorem fails_parseAll_noLimit {xs : List Part} {f : Fault} {p q : Progress}
    (hx : ∀ x ∈ xs, ∀ p, Fit p.nodeCount (tuplesAt (p.depth + 1) x.value) →
      Fails x.parse p f q → f.faultClass ≠ .limit)
    (hfit : Fit p.nodeCount (tuplesAllAt (p.depth + 1) (xs.map Part.value)))
    (h : Fails (parseAll xs) p f q) : f.faultClass ≠ .limit := by
  induction xs generalizing p with
  | nil => exact absurd h not_fails_parseAll_nil
  | cons x xs ih =>
    obtain ⟨hx, hxs⟩ := List.forall_mem_cons.mp hx
    rw [List.map_cons, tuplesAllAt, fit_append] at hfit
    obtain hf | ⟨r, hr, hf⟩ := fails_parseAll_cons.mp h
    · exact hx p hfit.1 hf
    · obtain ⟨hdepth, hcount⟩ := runs_counts x hr
      rw [← hcount, ← hdepth] at hfit
      exact ih hxs hfit.2 hf

/-- A part whose tuples keep to the limits, with those before, fails for no limit. -/
theorem fails_noLimit (x : Part) {f : Fault} {q : Progress} :
    ∀ p, Fit p.nodeCount (tuplesAt (p.depth + 1) x.value) → Fails x.parse p f q →
      f.faultClass ≠ .limit := by
  induction x using Part.induction with
  | h x ih =>
    intro p hfit h
    cases hx : x.form with
    | scalar => exact absurd h (not_fails_scalar hx)
    | refused g =>
      obtain ⟨rfl, -⟩ := (fails_refused hx).mp h
      exact Part.refused_faultClass hx
    | tuple tag params body =>
      rw [Part.value_eq hx, tuplesAt_headed, ← List.singleton_append, fit_append] at hfit
      obtain ⟨⟨hown, hcount⟩, hparams⟩ := hfit
      obtain ⟨hdepth, hlength, harms⟩ :=
        Tuple.fits_headed.mp (List.forall_mem_singleton.mp hown)
      obtain ⟨hl, -⟩ | ⟨-, ⟨rfl, -⟩ | ⟨b, rfl, hf⟩⟩ := (fails_tuple_part hx).mp h
      · have hnone : exceededLimit? tag (params.length + 1) (p.enter.add tag) = none :=
          exceededLimit?_eq_none_iff.mpr ⟨hdepth, hcount, hlength⟩
        rw [hnone] at hl
        cases hl
      · exact fun hf => (Part.body_limit hx hf).2 harms
      · apply fails_parseAll_noLimit (ih tag params b hx) _ hf
        obtain hv | hv := Part.parts_values hx
        · rwa [hv]
        · rw [hv]
          exact ⟨nofun, hcount⟩

theorem parse_noLimit {v : Value} {f : Failure} (hv : WithinLimits v) (h : parse v = .error f) :
    f.fault.faultClass ≠ .limit :=
  fails_noLimit (.criterion v) .start hv (parse_eq_error.mp h)

end ScanCriteria.Wire
