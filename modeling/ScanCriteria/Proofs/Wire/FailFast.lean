import ScanCriteria.Proofs.Wire.OpenTuples

/-!
# What follows a failure

A parse goes through the parts of a tuple from left to right, and at a part it has not looked at
anything behind it. Where it fails, the values behind may therefore be replaced by as many others:
the fault stays the same, and so does the progress.
-/
namespace ScanCriteria.Wire
open Json

/-- The values differ in nothing but what stands behind the end of the way: in the last tuple on it,
the parameters behind are others, as many as before. -/
inductive SameUpTo : Way → Value → Value → Prop
  | last (tag : String) (us : List Value) (v : Value) {ws ws' : List Value} :
      ws'.length = ws.length →
      SameUpTo [(tag, us.length)] (headed tag (us ++ v :: ws)) (headed tag (us ++ v :: ws'))
  | within (tag : String) (us ws : List Value) {way : Way} {v v' : Value} : SameUpTo way v v' →
      SameUpTo ((tag, us.length) :: way) (headed tag (us ++ v :: ws)) (headed tag (us ++ v' :: ws))

theorem SameUpTo.cases {tag : String} {i : Nat} {way : Way} {params : List Value} {w : Value}
    (h : SameUpTo ((tag, i) :: way) (headed tag params) w) :
    ∃ us v ws v' ws', params = us ++ v :: ws ∧ us.length = i ∧ ws'.length = ws.length ∧
      w = headed tag (us ++ v' :: ws') ∧ (way = [] ∧ v' = v ∨ SameUpTo way v v') := by
  generalize hv : headed tag params = v at h
  cases h with
  | last _ us v hl =>
    exact ⟨us, v, _, v, _, (headed_inj.mp hv).2, rfl, hl, rfl, .inl ⟨rfl, rfl⟩⟩
  | within _ us ws h =>
    exact ⟨us, _, ws, _, ws, (headed_inj.mp hv).2, rfl, rfl, rfl, .inr h⟩

namespace Part

/-- Another value in the place of the part. -/
def withValue : Part → Value → Part
  | criterion _, v => criterion v
  | operand _, v => operand v

theorem withValue_value (x : Part) : x.withValue x.value = x := by cases x <;> rfl

theorem zipWith_withValue_values (xs : List Part) :
    List.zipWith withValue xs (xs.map value) = xs := by
  induction xs with
  | nil => rfl
  | cons x xs ih => rw [List.map_cons, List.zipWith_cons_cons, withValue_value, ih]

end Part

theorem zipWith_withValue_criteria {vs ws : List Value} (hl : ws.length = vs.length) :
    List.zipWith Part.withValue (vs.map .criterion) ws = ws.map .criterion := by
  induction vs generalizing ws with
  | nil =>
    obtain rfl := List.length_eq_zero_iff.mp hl
    rfl
  | cons v vs ih =>
    obtain ⟨w, ws, rfl⟩ := List.exists_cons_of_length_eq_add_one hl
    rw [List.map_cons, List.zipWith_cons_cons, ih (Nat.succ.inj hl)]
    rfl

theorem zipWith_withValue_arms {vs ws : List Value} (hl : ws.length = vs.length) :
    List.zipWith Part.withValue (armParts vs) ws = armParts ws := by
  induction vs using armParts.induct generalizing ws with
  | case1 c v rest ih =>
    obtain ⟨d, ws, rfl⟩ := List.exists_cons_of_length_eq_add_one hl
    obtain ⟨w, ws, rfl⟩ := List.exists_cons_of_length_eq_add_one (Nat.succ.inj hl)
    rw [armParts, List.zipWith_cons_cons, List.zipWith_cons_cons,
      ih (Nat.succ.inj (Nat.succ.inj hl)), armParts]
    rfl
  | case2 vs hvs =>
    rcases vs with _ | ⟨c, _ | ⟨v, rest⟩⟩
    · obtain rfl := List.length_eq_zero_iff.mp hl
      rfl
    · obtain ⟨d, rfl⟩ := List.length_eq_one_iff.mp hl
      rfl
    · exact absurd rfl (hvs c v rest)

section Bodies

variable {tag : String} {params params' : List Value} {b : Body}

/-- Other parameters, as many as before, are parts of the same sorts. -/
theorem criterionBody_withValue (h : criterionBody tag params = .ok b) (hb : b.parts ≠ [])
    (hl : params'.length = params.length) :
    criterionBody tag params' = .ok ⟨List.zipWith Part.withValue b.parts params', b.kind⟩ := by
  unfold criterionBody at h ⊢
  split at h
  · obtain ⟨t, -, rfl⟩ := map_eq_ok.mp h
    exact absurd rfl hb
  · split at h
    · cases h
    · next hne =>
      cases h
      have hne' : params'.isEmpty = false := by
        rw [List.isEmpty_eq_false_iff, ← List.length_pos_iff, hl, List.length_pos_iff]
        simpa using hne
      simp [zipWith_withValue_criteria hl, hne']
  · split at h <;> cases h
    obtain ⟨v, rfl⟩ := List.length_eq_one_iff.mp hl
    rfl
  · split at h <;> cases h
    obtain ⟨v, w, rfl⟩ := List.length_eq_two.mp hl
    rfl
  · split at h <;> cases h
    exact absurd rfl hb

theorem operandBody_withValue (h : operandBody tag params = .ok b)
    (hl : params'.length = params.length) :
    operandBody tag params' = .ok ⟨List.zipWith Part.withValue b.parts params', b.kind⟩ := by
  unfold operandBody at h ⊢
  split at h
  · cases h
  · split at h <;> cases h
    obtain ⟨v, w, rfl⟩ := List.length_eq_two.mp hl
    rfl
  · split at h <;> cases h
    obtain ⟨v, rfl⟩ := List.length_eq_one_iff.mp hl
    rfl
  · rw [hl]
    split at h <;> cases h
    rw [zipWith_withValue_arms hl]

theorem Part.form_withValue {x : Part} (hx : x.form = .tuple tag params (.ok b))
    (hb : b.parts ≠ []) (hl : params'.length = params.length) :
    (x.withValue (headed tag params')).form =
      .tuple tag params' (.ok ⟨List.zipWith withValue b.parts params', b.kind⟩) := by
  obtain ⟨rfl, h⟩ | ⟨rfl, h⟩ := form_eq_tuple_iff.mp hx
  · exact form_criterion (criterionBody_withValue h hb hl)
  · exact form_operand (operandBody_withValue h hl)

end Bodies

/-- The parse of a value comes by the way to the same part, with the same progress, whatever stands
behind. -/
theorem Descends.sameUpTo {x y : Part} {p q : Progress} {way : Way} (h : Descends x p way y q)
    {w : Value} (hw : SameUpTo way x.value w) : Descends (x.withValue w) p way y q := by
  induction h generalizing w with
  | here x p => cases hw
  | @within x y z p q r tag params b ys zs way hx hl hparts hys hd ih =>
    rw [Part.value_eq hx] at hw
    obtain ⟨us, v, ws, v', ws', rfl, hus, hws, rfl, hv⟩ := hw.cases
    -- the parts before the way are the parameters before it, which stay as they are
    have hb : b.parts ≠ [] := by simp [hparts]
    have hvalues := (Part.parts_values hx).resolve_right hb
    rw [hparts, List.map_append, List.map_cons] at hvalues
    obtain ⟨hys', hrest⟩ := List.append_inj hvalues (by rw [List.length_map, hus])
    obtain ⟨hy, -⟩ := List.cons.inj hrest
    have hlen : (us ++ v' :: ws').length = (us ++ v :: ws).length := by simp [hws]
    have hparts' : List.zipWith Part.withValue b.parts (us ++ v' :: ws') =
        ys ++ y.withValue v' :: List.zipWith Part.withValue zs ws' := by
      rw [hparts, List.zipWith_append hus.symm, List.zipWith_cons_cons, ← hys',
        Part.zipWith_withValue_values]
    -- where the way ends its part keeps its value; else it goes on within another one
    have hnext : Descends (y.withValue v') q way z r := by
      obtain ⟨rfl, rfl⟩ | hv := hv
      · rwa [← hy, Part.withValue_value]
      · exact ih (hy ▸ hv)
    have hl' : Admitted tag (us ++ v' :: ws') p := by rwa [Admitted, hlen]
    exact .within (Part.form_withValue hx hb hlen) hl' hparts' hys hnext

section Tuples

variable {params : List Value} {p q : Progress} {f : Fault}

theorem runs_criteria_parts {vs : List Value} :
    Runs (parseAll (vs.map .criterion)) p () q ↔ ∃ cs, Runs (criteria vs) p cs q := by
  simp only [← criteria_parts, map_eq_pure_bind, runs_bind, runs_pure, exists_eq_right, true_and]

/-- A junction fails with the first of its operands that fails. -/
theorem fails_junction_iff {op : Connective} (hne : params ≠ [])
    (hl : Admitted (CriterionTag.junction op).text params p) :
    Fails (criterion (headed (CriterionTag.junction op).text params)) p f q ↔
      ∃ us v ws cs r, params = us ++ v :: ws ∧
        Runs (criteria us) (p.enter.add (CriterionTag.junction op).text) cs r ∧
        Fails (criterion v) r f q := by
  obtain ⟨a, as, rfl⟩ := List.exists_cons_of_ne_nil hne
  have hx := form_criterion (criterionBody_junction op a as)
  rw [← fails_criterion_part, fails_tuple_part hx, hl]
  simp only [reduceCtorEq, false_and, true_and, false_or, Except.ok.injEq, exists_eq_left']
  constructor
  · intro h
    obtain ⟨xs, x, zs, r, hparts, hxs, hf⟩ := exists_of_fails_parseAll h
    obtain ⟨us, rest, hparams, rfl, hrest⟩ := List.map_eq_append_iff.mp hparts
    obtain ⟨v, ws, rfl, rfl, rfl⟩ := List.map_eq_cons_iff.mp hrest
    obtain ⟨cs, hcs⟩ := runs_criteria_parts.mp hxs
    exact ⟨us, v, ws, cs, r, hparams, hcs, fails_criterion_part.mp hf⟩
  · rintro ⟨us, v, ws, cs, r, hparams, hcs, hf⟩
    rw [hparams, List.map_append, List.map_cons]
    exact fails_parseAll_of_runs (runs_criteria_parts.mpr ⟨cs, hcs⟩) (fails_criterion_part.mpr hf) _

theorem fails_comparison_arity {op : Comparison} (hn : params.length ≠ 2)
    (hl : Admitted (CriterionTag.comparison op).text params p) :
    Fails (criterion (headed (CriterionTag.comparison op).text params)) p
      ⟨.numericComparisonDoesNotHave2Operands,
        s!"{(CriterionTag.comparison op).text} has {params.length}"⟩
      (p.enter.add (CriterionTag.comparison op).text) := by
  have hbody : criterionBody (CriterionTag.comparison op).text params =
      fault .numericComparisonDoesNotHave2Operands
        s!"{(CriterionTag.comparison op).text} has {params.length}" := by
    simp only [criterionBody, CriterionTag.ofText?_text]
    split
    · exact absurd rfl hn
    · rfl
  exact fails_criterion_part.mp (FailsItself.body (form_criterion hbody) hl).fails

theorem fails_binary_arity {op : Binary} (hn : params.length ≠ 2)
    (hl : Admitted (OperandTag.binary op).text params p) :
    Fails (operand (headed (OperandTag.binary op).text params)) p
      ⟨.binaryArithmeticDoesNotHave2Operands,
        s!"{(OperandTag.binary op).text} has {params.length}"⟩
      (p.enter.add (OperandTag.binary op).text) := by
  have hbody : operandBody (OperandTag.binary op).text params =
      fault .binaryArithmeticDoesNotHave2Operands
        s!"{(OperandTag.binary op).text} has {params.length}" := by
    simp only [operandBody, OperandTag.ofText?_text]
    split
    · exact absurd rfl hn
    · rfl
  exact fails_operand_part.mp (FailsItself.body (form_operand hbody) hl).fails

theorem fails_unary_arity {op : Unary} (hn : params.length ≠ 1)
    (hl : Admitted (OperandTag.unary op).text params p) :
    Fails (operand (headed (OperandTag.unary op).text params)) p
      ⟨.unaryArithmeticDoesNotHave1Operand,
        s!"{(OperandTag.unary op).text} has {params.length}"⟩
      (p.enter.add (OperandTag.unary op).text) := by
  have hbody : operandBody (OperandTag.unary op).text params =
      fault .unaryArithmeticDoesNotHave1Operand
        s!"{(OperandTag.unary op).text} has {params.length}" := by
    simp only [operandBody, OperandTag.ofText?_text]
    split
    · exact absurd rfl hn
    · rfl
  exact fails_operand_part.mp (FailsItself.body (form_operand hbody) hl).fails

theorem fails_choice_arity (hn : params.length < 4 ∨ params.length % 2 ≠ 0)
    (hl : Admitted OperandTag.choice.text params p) :
    Fails (operand (headed OperandTag.choice.text params)) p
      ⟨.numericIfTupleHasInvalidLength, s!"length {params.length + 1}"⟩
      (p.enter.add OperandTag.choice.text) := by
  have hbody : operandBody OperandTag.choice.text params =
      fault .numericIfTupleHasInvalidLength s!"length {params.length + 1}" := by
    rw [operandBody_choice, choiceFault?, if_pos hn]
    rfl
  exact fails_operand_part.mp (FailsItself.body (form_operand hbody) hl).fails

end Tuples

/-- A parse stops at the first failure. That comes from a part that fails itself, within the tuples
that the log shows as open; whatever values stand behind in one of these tuples, the fault and the
progress are the same. A junction within the limits fails with the first of its operands that fails,
and a comparison, an operation or a choice with a wrong number of parameters fails by that number,
whatever the parameters are. -/
theorem fails_fast :
    (∀ v f, parse v = .error f →
      (∃ way y q tags, Descends (.criterion v) .start way y q ∧
        FailsItself y q f.fault f.progress tags ∧
        f.progress.unresolved.map (·.tag) = way.map Prod.fst ++ tags) ∧
      ∀ way y q w, Descends (.criterion v) .start way y q → Fails y.parse q f.fault f.progress →
        SameUpTo way v w → parse w = .error f) ∧
    (∀ op params p f q, params ≠ [] → Admitted (CriterionTag.junction op).text params p →
      (Fails (criterion (headed (CriterionTag.junction op).text params)) p f q ↔
        ∃ us v ws cs r, params = us ++ v :: ws ∧
          Runs (criteria us) (p.enter.add (CriterionTag.junction op).text) cs r ∧
          Fails (criterion v) r f q)) ∧
    (∀ op params p, params.length ≠ 2 → Admitted (CriterionTag.comparison op).text params p →
      Fails (criterion (headed (CriterionTag.comparison op).text params)) p
        ⟨.numericComparisonDoesNotHave2Operands,
          s!"{(CriterionTag.comparison op).text} has {params.length}"⟩
        (p.enter.add (CriterionTag.comparison op).text)) ∧
    (∀ op params p, params.length ≠ 2 → Admitted (OperandTag.binary op).text params p →
      Fails (operand (headed (OperandTag.binary op).text params)) p
        ⟨.binaryArithmeticDoesNotHave2Operands,
          s!"{(OperandTag.binary op).text} has {params.length}"⟩
        (p.enter.add (OperandTag.binary op).text)) ∧
    (∀ op params p, params.length ≠ 1 → Admitted (OperandTag.unary op).text params p →
      Fails (operand (headed (OperandTag.unary op).text params)) p
        ⟨.unaryArithmeticDoesNotHave1Operand,
          s!"{(OperandTag.unary op).text} has {params.length}"⟩
        (p.enter.add (OperandTag.unary op).text)) ∧
    (∀ params p, params.length < 4 ∨ params.length % 2 ≠ 0 →
      Admitted OperandTag.choice.text params p →
      Fails (operand (headed OperandTag.choice.text params)) p
        ⟨.numericIfTupleHasInvalidLength, s!"length {params.length + 1}"⟩
        (p.enter.add OperandTag.choice.text)) := by
  refine ⟨fun v f hf => ⟨?_, ?_⟩, fun _ _ _ _ _ => fails_junction_iff,
    fun _ _ _ => fails_comparison_arity, fun _ _ _ => fails_binary_arity,
    fun _ _ _ => fails_unary_arity, fun _ _ => fails_choice_arity⟩
  · obtain ⟨way, y, q, tags, hd, hy⟩ := exists_descends (.criterion v) .start (parse_eq_error.mp hf)
    exact ⟨way, y, q, tags, hd, hy, unresolved_of_opens (hd.opens hy.opens)⟩
  · intro way y q w hd hy hw
    exact parse_eq_error.mpr ((hd.sameUpTo hw).fails hy)

/-- The first operand of the disjunction has the tag of nothing. -/
def tomorrowBefore (v w : Value) : Value :=
  headed "And" [headed "All" [], headed "Or" [headed "Tomorrow" [], v], w]

theorem fails_fast_tomorrow :
    ∃ f, parse (tomorrowBefore (headed "All" []) (headed "All" [])) = .error f ∧
      f.fault = ⟨.unknownBooleanTupleNodeType, "Tomorrow"⟩ ∧
      parse (tomorrowBefore .null (headed "All" [])) = .error f ∧
      parse (tomorrowBefore (headed "All" []) (.string "Tomorrow")) = .error f := by
  let p : Progress := ⟨1, 2, #[⟨1, "And", none⟩, ⟨2, "All", some .everything⟩]⟩
  have hstop : stateAt (tomorrowBefore (headed "All" []) (headed "All" [])) 6 =
      .stopped ⟨.unknownBooleanTupleNodeType, "Tomorrow"⟩
        ((p.enter.add "Or").enter.add "Tomorrow") := rfl
  have hparse := parse_eq_error_of_stateAt hstop
  have hall : Runs (parseAll [.criterion (headed "All" [])]) (Progress.start.enter.add "And") ()
      p := by
    have hx := form_criterion (criterionBody_constant true)
    exact runs_parseAll_cons.mpr ⟨p, (runs_tuple_part hx).mpr
      ⟨rfl, _, _, rfl, runs_parseAll_nil.mpr rfl, rfl⟩, runs_parseAll_nil.mpr rfl⟩
  have hor : Descends (.criterion (headed "Or" [headed "Tomorrow" [], headed "All" []])) p
      [("Or", 0)] (.criterion (headed "Tomorrow" [])) (p.enter.add "Or") := by
    refine .within rfl ?_ rfl (runs_parseAll_nil.mpr rfl) (.here _ _)
    rfl
  have hand {way : Way} {y : Part} {q : Progress} (h : Descends (.criterion
      (headed "Or" [headed "Tomorrow" [], headed "All" []])) p way y q) :
      Descends (.criterion (tomorrowBefore (headed "All" []) (headed "All" []))) .start
        (("And", 1) :: way) y q := by
    refine .within rfl ?_ rfl hall h
    rfl
  have hfails : Fails (Part.criterion (headed "Tomorrow" [])).parse (p.enter.add "Or")
      ⟨.unknownBooleanTupleNodeType, "Tomorrow"⟩ ((p.enter.add "Or").enter.add "Tomorrow") := by
    refine (FailsItself.body rfl ?_).fails
    rfl
  obtain ⟨-, hsame⟩ := fails_fast.1 _ _ hparse
  refine ⟨_, hparse, rfl, ?_, ?_⟩
  · exact hsame _ _ _ _ (hand hor) hfails (.within "And" [_] [_] (.last "Or" [] _ rfl))
  · exact hsame _ _ _ _ (hand (.here _ _)) (hor.fails hfails) (.last "And" [_] _ rfl)

end ScanCriteria.Wire
