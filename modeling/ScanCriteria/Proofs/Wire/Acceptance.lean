import Mathlib.Data.List.Induction
import ScanCriteria.Proofs.Wire.FieldReading
import ScanCriteria.Proofs.Wire.Runs
import ScanCriteria.Proofs.Wire.Soundness

/-!
# What is accepted

Parsing accepts the values that the grammar has and that keep to the limits, and no others; it gives
what they denote. Each of the mutually recursive parses is shown to yield its part of the grammar
when the parses of the elements do, and the induction is on the nesting of arrays.
-/
namespace ScanCriteria.Wire
open Json

/-- The value is accepted as what it denotes, both as a criterion and as an operand. -/
structure Accepted (v : Value) : Prop where
  criterion : Yields (criterion v) (Denotes v) fun d => tuplesAt d v
  operand : Yields (operand v) (OperandDenotes v) fun d => tuplesAt d v

theorem criteria_yields {vs : List Value} (h : ∀ v ∈ vs, Accepted v) :
    Yields (criteria vs) (List.Forall₂ Denotes vs) fun d => tuplesAllAt d vs := by
  induction vs with
  | nil =>
    rw [criteria]
    apply (Yields.pure []).congr
    intro cs
    rw [List.forall₂_nil_left_iff, eq_comm]
  | cons v vs ih =>
    obtain ⟨hv, hvs⟩ := List.forall_mem_cons.mp h
    rw [criteria]
    apply (hv.criterion.bind fun c => (ih hvs).map (c :: ·)).congr
    intro cs
    rw [List.forall₂_cons_left_iff]
    simp only [eq_comm (b := cs), exists_and_left]

theorem arms_yields {vs : List Value} (h : ∀ v ∈ vs, Accepted v) (hl : vs.length % 2 = 0) :
    Yields (arms vs) (ArmsDenote vs) fun d => tuplesAllAt d vs := by
  induction vs using List.twoStepInduction with
  | nil =>
    rw [arms]
    · exact (Yields.pure []).congr fun as => armsDenote_nil_iff.symm
    · simp
  | singleton v => simp at hl
  | cons_cons v w rest ih _ =>
    obtain ⟨hv, h⟩ := List.forall_mem_cons.mp h
    obtain ⟨hw, h⟩ := List.forall_mem_cons.mp h
    have hrest := ih h (by simp only [List.length_cons] at hl; omega)
    rw [arms]
    apply (hv.criterion.bind fun c => hw.operand.bind fun a => hrest.map (.mk c a :: ·)).congr
    exact fun as => armsDenote_cons_iff.symm

section Criteria

variable {tag : String} {params : List Value}

/-- A tag that is not one of a criterion heads a field test. -/
theorem denotes_headed_iff (ht : CriterionTag.ofText? tag = none) {c : Criterion} :
    Denotes (headed tag params) c ↔ (fieldTest tag params).map .field = .ok c := by
  simp only [map_eq_ok, fieldTest_eq_ok_iff]
  constructor
  · intro h
    generalize hw : headed tag params = w at h
    cases h with
    | @criterion t _ _ h =>
      rw [(headed_inj.mp hw).1, CriterionTag.ofText?_text] at ht
      cases ht
    | @field f _ t h =>
      obtain ⟨rfl, rfl⟩ := headed_inj.mp hw
      exact ⟨t, ⟨f, rfl, h⟩, rfl⟩
  · rintro ⟨t, ⟨f, rfl, h⟩, rfl⟩
    exact .field h

theorem field_yields (ht : CriterionTag.ofText? tag = none) :
    Yields (criterionOf tag params) (Denotes (headed tag params)) fun d =>
      tuplesAllAt d params := by
  simp only [criterionOf.eq_def, ht]
  apply Yields.liftExcept fun c => (denotes_headed_iff ht).symm
  intro c hc d
  obtain ⟨t, hf, -⟩ := map_eq_ok.mp ((denotes_headed_iff ht).mp hc)
  obtain ⟨f, -, h⟩ := fieldTest_eq_ok_iff.mp hf
  exact h.tuples_eq_nil

theorem junction_yields {op : Connective} (h : ∀ v ∈ params, Accepted v) :
    Yields (criterionOf (CriterionTag.junction op).text params) (TupleDenotes (.junction op) params)
      fun d => tuplesAllAt d params := by
  simp only [criterionOf.eq_def, CriterionTag.ofText?_text]
  refine ((criteria_yields h).andThen fun cs => ?_).congr fun c => tupleDenotes_junction.symm
  cases cs with
  | nil => exact Yields.throw (by simp)
  | cons d ds => exact (Yields.pure (Criterion.junction op d ds)).congr (by simp)

theorem not_yields (h : ∀ v ∈ params, Accepted v) :
    Yields (criterionOf CriterionTag.not.text params) (TupleDenotes .not params)
      fun d => tuplesAllAt d params := by
  simp only [criterionOf.eq_def, CriterionTag.ofText?_text]
  rcases params with _ | ⟨v, _ | ⟨w, rest⟩⟩
  · apply Yields.throw
    intro c hc
    cases hc
  · simp only [tuplesAllAt_single]
    apply ((List.forall_mem_singleton.mp h).criterion.map Criterion.not).congr
    exact fun c => tupleDenotes_not.symm
  · apply Yields.throw
    intro c hc
    cases hc

theorem comparison_yields {op : Comparison} (h : ∀ v ∈ params, Accepted v) :
    Yields (criterionOf (CriterionTag.comparison op).text params)
      (TupleDenotes (.comparison op) params) fun d => tuplesAllAt d params := by
  simp only [criterionOf.eq_def, CriterionTag.ofText?_text]
  rcases params with _ | ⟨v, _ | ⟨w, _ | ⟨x, rest⟩⟩⟩
  · apply Yields.throw
    intro c hc
    cases hc
  · apply Yields.throw
    intro c hc
    cases hc
  · obtain ⟨hv, hw⟩ := List.forall_mem_cons.mp h
    simp only [tuplesAllAt_pair]
    apply (hv.operand.bind fun a =>
      (List.forall_mem_singleton.mp hw).operand.map (Criterion.comparison op a)).congr
    exact fun c => tupleDenotes_comparison.symm
  · apply Yields.throw
    intro c hc
    cases hc

theorem constant_yields {holds : Bool} :
    Yields (criterionOf (CriterionTag.constant holds).text params)
      (TupleDenotes (.constant holds) params) fun d => tuplesAllAt d params := by
  simp only [criterionOf.eq_def, CriterionTag.ofText?_text]
  cases params with
  | nil => exact (Yields.pure _).congr fun c => tupleDenotes_constant.symm
  | cons v vs =>
    apply Yields.throw
    intro c hc
    cases hc

theorem criterionOf_yields (h : ∀ v ∈ params, Accepted v) :
    Yields (criterionOf tag params) (Denotes (headed tag params)) fun d =>
      tuplesAllAt d params := by
  cases ht : CriterionTag.ofText? tag with
  | none => exact field_yields ht
  | some t =>
    obtain rfl := CriterionTag.text_of_ofText? ht
    have hd (c : Criterion) : TupleDenotes t params c ↔ Denotes (headed t.text params) c :=
      denotes_text.symm
    cases t with
    | junction op => exact (junction_yields h).congr hd
    | not => exact (not_yields h).congr hd
    | comparison op => exact (comparison_yields h).congr hd
    | constant holds => exact constant_yields.congr hd

end Criteria

section Operands

variable {tag : String} {params : List Value}

/-- What an operand's tuple gives: the operand, whose arms keep to their limit, and its kind. -/
def OperandResult (t : OperandTag) (params : List Value) (r : Operand × Kind) : Prop :=
  OperandTupleDenotes t params r.1 ∧ r.1.kind? = some r.2

theorem unary_yields {op : Unary} (h : ∀ v ∈ params, Accepted v) :
    Yields (operandOf (OperandTag.unary op).text params) (OperandResult (.unary op) params)
      fun d => tuplesAllAt d params := by
  simp only [operandOf.eq_def, OperandTag.ofText?_text]
  rcases params with _ | ⟨v, _ | ⟨w, rest⟩⟩
  · apply Yields.throw
    rintro r ⟨hr, -⟩
    cases hr
  · simp only [tuplesAllAt_single]
    have hv := (List.forall_mem_singleton.mp h).operand
    apply (hv.map fun a => (Operand.unary op a, op.kind)).congr
    rintro ⟨b, k⟩
    rw [OperandResult, operandTupleDenotes_unary]
    constructor
    · rintro ⟨a, ha, ⟨⟩⟩
      exact ⟨⟨a, ha, rfl⟩, rfl⟩
    · rintro ⟨⟨a, ha, rfl⟩, ⟨⟩⟩
      exact ⟨a, ha, rfl⟩
  · apply Yields.throw
    rintro r ⟨hr, -⟩
    cases hr

theorem binary_yields {op : Binary} (h : ∀ v ∈ params, Accepted v) :
    Yields (operandOf (OperandTag.binary op).text params) (OperandResult (.binary op) params)
      fun d => tuplesAllAt d params := by
  simp only [operandOf.eq_def, OperandTag.ofText?_text]
  rcases params with _ | ⟨v, _ | ⟨w, _ | ⟨x, rest⟩⟩⟩
  · apply Yields.throw
    rintro r ⟨hr, -⟩
    cases hr
  · apply Yields.throw
    rintro r ⟨hr, -⟩
    cases hr
  · obtain ⟨hv, hw⟩ := List.forall_mem_cons.mp h
    simp only [tuplesAllAt_pair]
    apply (hv.operand.bind fun a => (List.forall_mem_singleton.mp hw).operand.map fun b =>
      (Operand.binary op a b, op.kind)).congr
    rintro ⟨c, k⟩
    rw [OperandResult, operandTupleDenotes_binary]
    constructor
    · rintro ⟨a, ha, b, hb, ⟨⟩⟩
      exact ⟨⟨a, ha, b, hb, rfl⟩, rfl⟩
    · rintro ⟨⟨a, ha, b, hb, rfl⟩, ⟨⟩⟩
      exact ⟨a, ha, b, hb, rfl⟩
  · apply Yields.throw
    rintro r ⟨hr, -⟩
    cases hr

theorem splitArms?_eq_some_iff {as rest : List Arm} {first last : Arm} :
    splitArms? as = some (first, rest, last) ↔ as = first :: (rest ++ [last]) := by
  match as with
  | [] => simp [splitArms?]
  | [a] => simp [splitArms?]
  | a :: b :: bs =>
    simp only [splitArms?, Option.some.injEq, Prod.mk.injEq, List.cons.injEq]
    constructor
    · rintro ⟨rfl, rfl, rfl⟩
      exact ⟨rfl, (List.dropLast_append_getLast (List.cons_ne_nil b bs)).symm⟩
    · rintro ⟨rfl, h⟩
      simp only [h, List.dropLast_concat, List.getLast_append_singleton, and_self]

theorem choiceFault?_eq_none_iff {n : Nat} :
    choiceFault? n = none ↔ 4 ≤ n ∧ n % 2 = 0 ∧ n / 2 ≤ Limits.arms := by
  unfold choiceFault?
  split
  · simp only [reduceCtorEq, false_iff]
    omega
  · split
    · simp only [reduceCtorEq, false_iff]
      omega
    · simp only [true_iff]
      omega

theorem choice_length {a : Operand} (h : OperandTupleDenotes .choice params a)
    (hf : armsFit OperandTag.choice.text params) : choiceFault? params.length = none := by
  cases h with
  | choice h =>
    have hl := h.length_eq
    simp only [List.length_cons, List.length_append, List.length_nil] at hl
    exact choiceFault?_eq_none_iff.mpr ⟨by omega, by omega, hf rfl⟩

theorem choice_yields (h : ∀ v ∈ params, Accepted v) :
    Yields (operandOf OperandTag.choice.text params)
      (fun r => OperandResult .choice params r ∧ armsFit OperandTag.choice.text params)
      fun d => tuplesAllAt d params := by
  simp only [operandOf.eq_def, OperandTag.ofText?_text]
  cases hc : choiceFault? params.length with
  | some f =>
    apply Yields.throw
    rintro r ⟨hr, hf⟩
    rw [choice_length hr.1 hf] at hc
    cases hc
  | none =>
    obtain ⟨-, heven, hf⟩ := choiceFault?_eq_none_iff.mp hc
    have hr (r : Operand × Kind) :
        (∃ as, ArmsDenote params as ∧ ∃ first rest last, as = first :: (rest ++ [last]) ∧
          (Operand.choice first rest last, Kind.numericIf) = r) ↔
        OperandResult .choice params r ∧ armsFit OperandTag.choice.text params := by
      obtain ⟨a, k⟩ := r
      rw [OperandResult, operandTupleDenotes_choice]
      constructor
      · rintro ⟨as, has, first, rest, last, rfl, ⟨⟩⟩
        exact ⟨⟨⟨_, has, first, rest, last, rfl, rfl⟩, rfl⟩, fun _ => hf⟩
      · rintro ⟨⟨⟨as, has, first, rest, last, rfl, rfl⟩, ⟨⟩⟩, -⟩
        exact ⟨_, has, first, rest, last, rfl, rfl⟩
    refine ((arms_yields h heven).andThen fun as => ?_).congr hr
    simp only [← splitArms?_eq_some_iff]
    cases splitArms? as with
    | none => exact Yields.throw (by simp)
    | some s =>
      obtain ⟨first, rest, last⟩ := s
      exact (Yields.pure (Operand.choice first rest last, Kind.numericIf)).congr (by simp)

theorem operandDenotes_headed {a : Operand} (h : OperandDenotes (headed tag params) a) :
    ∃ t, OperandTag.text t = tag ∧ OperandTupleDenotes t params a := by
  generalize hw : headed tag params = w at h
  cases h with
  | operand h =>
    obtain ⟨ht, rfl⟩ := headed_inj.mp hw
    exact ⟨_, ht.symm, h⟩
  | literal n => cases hw
  | field hf => cases hw

theorem operandOf_yields (h : ∀ v ∈ params, Accepted v) :
    Yields (operandOf tag params)
      (fun r => (OperandDenotes (headed tag params) r.1 ∧ r.1.kind? = some r.2) ∧
        armsFit tag params)
      fun d => tuplesAllAt d params := by
  cases ht : OperandTag.ofText? tag with
  | none =>
    simp only [operandOf.eq_def, ht]
    apply Yields.throw
    rintro r ⟨⟨h, -⟩, -⟩
    obtain ⟨t, rfl, -⟩ := operandDenotes_headed h
    rw [OperandTag.ofText?_text] at ht
    cases ht
  | some t =>
    obtain rfl := OperandTag.text_of_ofText? ht
    simp only [operandDenotes_text]
    have hfit (ht : t ≠ .choice) (r : Operand × Kind) :
        OperandResult t params r ↔ OperandResult t params r ∧ armsFit t.text params :=
      ⟨fun h => ⟨h, armsFit_operandText t ht params⟩, And.left⟩
    cases t with
    | unary op => exact (unary_yields h).congr (hfit nofun)
    | binary op => exact (binary_yields h).congr (hfit nofun)
    | choice => exact choice_yields h

end Operands

theorem denotes_headed_armsFit {tag : String} {params : List Value} {c : Criterion}
    (h : Denotes (headed tag params) c) : armsFit tag params := by
  generalize hw : headed tag params = w at h
  cases h with
  | criterion _ =>
    rw [(headed_inj.mp hw).1]
    exact armsFit_text _ _
  | field _ =>
    rw [(headed_inj.mp hw).1]
    exact armsFit_tag _ _

theorem accepted_tuple {tag : String} {params : List Value} (h : ∀ v ∈ params, Accepted v) :
    Accepted (headed tag params) where
  criterion := by
    have hfit (c : Criterion) : Denotes (headed tag params) c ↔
        Denotes (headed tag params) c ∧ armsFit tag params :=
      ⟨fun hc => ⟨hc, denotes_headed_armsFit hc⟩, And.left⟩
    have hy := ((criterionOf_yields h).congr hfit).tuple Criterion.kind id
    simp only [tuplesAt_headed]
    rw [headed, criterion]
    apply hy.congr
    intro c
    constructor
    · rintro ⟨_, hc, rfl⟩
      exact hc
    · intro hc
      exact ⟨c, hc, rfl⟩
  operand := by
    simp only [tuplesAt_headed]
    rw [headed, operand]
    apply ((operandOf_yields h).tuple Prod.snd Prod.fst).congr
    intro a
    constructor
    · rintro ⟨r, ⟨ha, -⟩, rfl⟩
      exact ha
    · intro ha
      obtain ⟨t, -, ht⟩ := operandDenotes_headed ha
      obtain ⟨k, hk⟩ : ∃ k, a.kind? = some k := by
        cases ht <;> exact ⟨_, rfl⟩
      exact ⟨(a, k), ⟨ha, hk⟩, rfl⟩

theorem accepted_untagged {items : List Value}
    (h : ∀ tag params, items ≠ .string tag :: params) : Accepted (.array items) where
  criterion := by
    rw [criterion.eq_2 items h]
    apply Yields.throw
    intro c hc
    generalize hw : Value.array items = w at hc
    cases hc <;> exact h _ _ (Value.array.inj hw)
  operand := by
    rw [operand.eq_4 items h]
    apply Yields.throw
    intro a ha
    generalize hw : Value.array items = w at ha
    cases ha with
    | operand _ => exact h _ _ (Value.array.inj hw)
    | literal _ => cases hw
    | field _ => cases hw

theorem operand_string_yields (tag : String) :
    Yields (operand (.string tag)) (OperandDenotes (.string tag)) fun _ => [] := by
  rw [operand]
  cases hf : Field.ofTagIn? .numeric tag with
  | none =>
    apply Yields.throw
    intro a ha
    cases ha with
    | field hg =>
      rw [Field.ofTagIn?_eq_some_iff.mpr ⟨hg, rfl⟩] at hf
      cases hf
  | some f =>
    obtain ⟨hg, rfl⟩ := Field.ofTagIn?_eq_some_iff.mp hf
    apply (Yields.pure _).congr
    intro a
    constructor
    · rintro rfl
      exact .field hg
    · intro ha
      generalize hw : Value.string f.tag = w at ha
      cases ha with
      | field _ => rw [Field.tag_inj.mp (Value.string.inj hw)]
      | literal _ | operand _ => cases hw

theorem accepted_scalar {v : Value} (hv : ∀ items, v ≠ .array items) : Accepted v where
  criterion := by
    rw [criterion.eq_3 v (fun _ _ h => hv _ h) hv]
    apply Yields.throw
    intro c hc
    cases hc <;> exact hv _ rfl
  operand := by
    cases v with
    | array items => exact absurd rfl (hv items)
    | string tag => exact operand_string_yields tag
    | number n =>
      rw [operand]
      apply (Yields.pure _).congr
      intro a
      constructor
      · rintro rfl
        exact .literal n
      · rintro ⟨⟩
        rfl
    | _ =>
      rw [operand]
      · apply Yields.throw
        intro a ha
        cases ha
      all_goals simp

theorem accepted_array {items : List Value} (h : ∀ v ∈ items, Accepted v) :
    Accepted (.array items) := by
  by_cases ht : ∃ tag params, items = .string tag :: params
  · obtain ⟨tag, params, rfl⟩ := ht
    exact accepted_tuple (List.forall_mem_cons.mp h).2
  · apply accepted_untagged
    intro tag params hi
    exact ht ⟨tag, params, hi⟩

mutual

theorem accepted : ∀ v, Accepted v
  | .array items => accepted_array (accepted_all items)
  | .null => accepted_scalar nofun
  | .bool _ => accepted_scalar nofun
  | .number _ => accepted_scalar nofun
  | .string _ => accepted_scalar nofun
  | .object _ => accepted_scalar nofun

theorem accepted_all : ∀ vs : List Value, ∀ v ∈ vs, Accepted v
  | [] => nofun
  | v :: vs => List.forall_mem_cons.mpr ⟨accepted v, accepted_all vs⟩

end

theorem runs_criterion_iff {v : Value} {c : Criterion} :
    (∃ p, Runs (criterion v) .start c p) ↔ Denotes v c ∧ WithinLimits v :=
  (accepted v).criterion.runs_iff (Nat.zero_le _)

theorem parse_eq_ok {v : Value} {c : Criterion} {p : Progress} :
    parse v = .ok ⟨c, p⟩ ↔ Runs (criterion v) .start c p := by
  have hparse : parse v = match outcome (criterion v) .start with
      | (.ok c, p) => .ok ⟨c, p⟩
      | (.error f, p) => .error ⟨f, p⟩ := rfl
  rw [hparse, Runs]
  rcases outcome (criterion v) .start with ⟨e | d, q⟩ <;> simp

/-- A value is parsed to a criterion just when it denotes it and keeps to the limits. -/
theorem parse_ok_iff_denotes (v : Value) (c : Criterion) :
    (∃ p, parse v = .ok ⟨c, p⟩) ↔ Denotes v c ∧ WithinLimits v := by
  simp only [parse_eq_ok]
  exact runs_criterion_iff

end ScanCriteria.Wire
