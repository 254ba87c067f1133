import ScanCriteria.Proofs.Number.Whole
import ScanCriteria.Proofs.Wire.Grammar
import ScanCriteria.Proofs.Wire.Tuples

/-!
# What wire tuples denote

The criteria that the grammar gives to values are sound: their fields are in the roles they have,
their numbers are finite and their ranges have a bound. Their nodes are the tuples of the value, so
a value is within the limits just when its criterion is.
-/
namespace ScanCriteria.Wire
open Json

section Targets

variable {α : Type} {R : Value → α → Prop}

theorem NamedDenotes.forall_mem {good : α → Prop} (hR : ∀ v a, R v a → good a) {key : String}
    {es : Entries Value} {o : Option α} (h : NamedDenotes R key es o) : ∀ a ∈ o.toList, good a := by
  cases h with
  | absent => simp
  | present _ ha => simpa using hR _ _ ha

theorem PositionalDenotes.forall_mem {good : α → Prop} (hR : ∀ v a, R v a → good a) {v : Value}
    {o : Option α} (h : PositionalDenotes R v o) : ∀ a ∈ o.toList, good a := by
  cases h with
  | absent => simp
  | present ha => simpa using hR _ _ ha

theorem TargetDenotes.forall_mem {good : α → Prop} (hR : ∀ v a, R v a → good a)
    {params : List Value} {t : Target α} (h : TargetDenotes R params t) :
    ∀ a ∈ t.values, good a := by
  cases h with
  | literal ha => simpa [Target.values] using hR _ _ ha
  | named h =>
    cases h with
    | value _ _ _ ha => simpa [Target.values] using hR _ _ ha
    | range _ hmin hmax _ =>
      exact List.forall_mem_append.mpr ⟨hmin.forall_mem hR, hmax.forall_mem hR⟩
  | positional hmin hmax _ =>
    exact List.forall_mem_append.mpr ⟨hmin.forall_mem hR, hmax.forall_mem hR⟩

theorem TargetDenotes.bounded {params : List Value} {t : Target α} (h : TargetDenotes R params t) :
    t.Bounded := by
  cases h with
  | literal _ => trivial
  | named h =>
    cases h with
    | value => trivial
    | range _ _ _ hne => exact hne
  | positional _ _ hne => exact hne

end Targets

theorem NumberDenotes.isFinite (v : Value) (x : Double) (h : NumberDenotes v x) :
    x.isFinite = true := by
  obtain ⟨n⟩ := h
  exact n.isFinite_toDouble

section Tests

variable {f : Field} {params : List Value} {t : FieldTest} (h : TestDenotes f params t)
include h

theorem TestDenotes.inRole : t.InRole := by
  cases h with
  | hasValue hp _ => exact hp
  | isTrue hg | boolean hg _ | numeric hg _ | date hg _ | text hg _ =>
    simp [FieldTest.InRole, Field.plays, hg]
  | _ => trivial

theorem TestDenotes.finite : ∀ x ∈ t.numbers, x.isFinite = true := by
  cases h with
  | numeric _ ht => exact ht.forall_mem NumberDenotes.isFinite
  | price h =>
    cases h with
    | nothing | sub => nofun
    | target ht | subTarget _ ht => exact ht.forall_mem NumberDenotes.isFinite
  | _ => nofun

theorem TestDenotes.bounded : t.Bounded := by
  cases h with
  | numeric _ ht | date _ ht => exact ht.bounded
  | price h =>
    cases h with
    | nothing | sub => trivial
    | target ht | subTarget _ ht => exact ht.bounded
  | dated h =>
    cases h with
    | nothing | sub => trivial
    | target ht | subTarget _ ht => exact ht.bounded
  | _ => trivial

theorem TestDenotes.settled : t.settled = t := by
  cases h with
  | @hasValue _ _ hg =>
    cases f with
    | isIndex => exact absurd rfl hg
    | _ => rfl
  | _ => rfl

theorem TestDenotes.parsed : (Node.criterion (.field t)).Parsed :=
  ⟨⟨h.inRole, h.finite, h.bounded⟩, h.settled⟩

end Tests

section Parameters

variable {α : Type} {R : Value → α → Prop} {d : Nat} {params : List Value}

theorem TargetDenotes.tuples_eq_nil (hR : ∀ v a, R v a → tuplesAt d v = []) {t : Target α}
    (h : TargetDenotes R params t) : ∀ v ∈ params, tuplesAt d v = [] := by
  have hopt {v : Value} {o : Option α} (h : PositionalDenotes R v o) : tuplesAt d v = [] := by
    cases h with
    | absent => rfl
    | present ha => exact hR _ _ ha
  cases h with
  | literal ha => simpa using hR _ _ ha
  | named _ => simp [tuplesAt]
  | positional hmin hmax _ => simp [hopt hmin, hopt hmax]

theorem TargetDenotes.length_le {t : Target α} (h : TargetDenotes R params t) :
    params.length ≤ 2 := by
  cases h <;> simp

theorem TextDenotes.tuples_eq_nil {p : TextMatch} (h : TextDenotes params p) :
    ∀ v ∈ params, tuplesAt d v = [] := by
  cases h <;> simp [tuplesAt]

theorem TextDenotes.length_le {p : TextMatch} (h : TextDenotes params p) : params.length ≤ 3 := by
  cases h <;> simp

theorem NumberDenotes.tuples_eq_nil (v : Value) (x : Double) (h : NumberDenotes v x) :
    tuplesAt d v = [] := by
  cases h
  rfl

theorem MomentDenotes.tuples_eq_nil (v : Value) (a : Moment) (h : MomentDenotes v a) :
    tuplesAt d v = [] := by
  cases h
  rfl

theorem TruthDenotes.tuples_eq_nil (v : Value) (b : Bool) (h : TruthDenotes v b) :
    tuplesAt d v = [] := by
  cases h
  rfl

variable {σ : Type} {name : σ → String}

theorem SubTargetDenotes.tuples_eq_nil (hR : ∀ v a, R v a → tuplesAt d v = []) {default s : σ}
    {t : Option (Target α)} (h : SubTargetDenotes name default R params s t) :
    ∀ v ∈ params, tuplesAt d v = [] := by
  cases h with
  | nothing => nofun
  | sub => simp [tuplesAt]
  | target ht => exact ht.tuples_eq_nil hR
  | subTarget _ ht => exact List.forall_mem_cons.mpr ⟨rfl, ht.tuples_eq_nil hR⟩

theorem SubTargetDenotes.length_le {default s : σ} {t : Option (Target α)}
    (h : SubTargetDenotes name default R params s t) : params.length ≤ 3 := by
  cases h with
  | nothing | sub | target => simp
  | subTarget _ ht => exact Nat.succ_le_succ ht.length_le

theorem SubTextDenotes.tuples_eq_nil {s : σ} {p : Option TextMatch}
    (h : SubTextDenotes name params s p) : ∀ v ∈ params, tuplesAt d v = [] := by
  cases h with
  | sub => simp [tuplesAt]
  | subText _ hp => exact List.forall_mem_cons.mpr ⟨rfl, hp.tuples_eq_nil⟩

theorem SubTextDenotes.length_le {s : σ} {p : Option TextMatch}
    (h : SubTextDenotes name params s p) : params.length ≤ 4 := by
  cases h with
  | sub => simp
  | subText _ hp => exact Nat.succ_le_succ hp.length_le

theorem TestDenotes.tuples_eq_nil {f : Field} {t : FieldTest} (h : TestDenotes f params t) :
    tuplesAllAt d params = [] := by
  apply tuplesAllAt_eq_nil
  cases h with
  | hasValue | isTrue => nofun
  | boolean _ ht => exact ht.tuples_eq_nil TruthDenotes.tuples_eq_nil
  | numeric _ ht => exact ht.tuples_eq_nil NumberDenotes.tuples_eq_nil
  | date _ ht => exact ht.tuples_eq_nil MomentDenotes.tuples_eq_nil
  | text _ hp => exact hp.tuples_eq_nil
  | price h => exact h.tuples_eq_nil NumberDenotes.tuples_eq_nil
  | dated h => exact h.tuples_eq_nil MomentDenotes.tuples_eq_nil
  | altCode h => exact h.tuples_eq_nil
  | attributes h => exact h.tuples_eq_nil

theorem TestDenotes.length_le {f : Field} {t : FieldTest} (h : TestDenotes f params t) :
    params.length ≤ 4 := by
  cases h with
  | hasValue | isTrue | boolean => simp
  | numeric _ ht => exact Nat.le_trans ht.length_le (by decide)
  | date _ ht => exact Nat.le_trans ht.length_le (by decide)
  | text _ hp => exact Nat.le_trans hp.length_le (by decide)
  | price h => exact Nat.le_trans h.length_le (by decide)
  | dated h => exact Nat.le_trans h.length_le (by decide)
  | altCode h => exact h.length_le
  | attributes h => exact h.length_le

end Parameters

theorem forall_mem_of_denotes {K : Criterion → Prop} {vs : List Value} {cs : List Criterion}
    (h : List.Forall₂ Denotes vs cs) (hK : ∀ c ∈ cs, ∀ v, Denotes v c → K c) : ∀ c ∈ cs, K c := by
  induction h with
  | nil => exact List.forall_mem_nil _
  | cons h _ ih =>
    obtain ⟨hc, hcs⟩ := List.forall_mem_cons.mp hK
    exact List.forall_mem_cons.mpr ⟨hc _ h, ih hcs⟩

theorem forall_mem_of_armsDenote {K : Arm → Prop} {vs : List Value} {as : List Arm}
    (h : ArmsDenote vs as) (hK : ∀ a ∈ as, ∀ vs, ArmsDenote vs [a] → K a) : ∀ a ∈ as, K a := by
  induction as generalizing vs with
  | nil => exact List.forall_mem_nil _
  | cons a as ih =>
    obtain ⟨v, w, rest, -, ha, has⟩ := h.cons_inv
    obtain ⟨hK, hKs⟩ := List.forall_mem_cons.mp hK
    exact List.forall_mem_cons.mpr ⟨hK _ ha, ih has hKs⟩

theorem parsed_criterion {c : Criterion} (h : ∀ t, c ≠ .field t) : (Node.criterion c).Parsed := by
  cases c with
  | field t => exact absurd rfl (h t)
  | _ => exact ⟨⟨trivial, List.forall_mem_nil _, trivial⟩, trivial⟩

theorem parsed_operand {a : Operand} (hx : ∀ x, a ≠ .literal x) (hf : ∀ f, a ≠ .field f) :
    (Node.operand a).Parsed := by
  cases a with
  | literal x => exact absurd rfl (hx x)
  | field f => exact absurd rfl (hf f)
  | _ => exact ⟨⟨trivial, List.forall_mem_nil _, trivial⟩, trivial⟩

theorem parsed_hereditary :
    Hereditary (fun c => ∀ v d, Denotes v c → ∀ n ∈ c.nodesAt d, n.node.Parsed)
      (fun a => ∀ v d, OperandDenotes v a → ∀ n ∈ a.nodesAt d, n.node.Parsed)
      (fun a => ∀ vs d, ArmsDenote vs [a] → ∀ n ∈ a.nodesAt d, n.node.Parsed) where
  constant b v d _ := every_constant.mpr (parsed_criterion (by simp))
  not c hc v d h := by
    obtain ⟨w, -, hw⟩ := h.not_inv
    exact every_not.mpr ⟨parsed_criterion (by simp), hc _ _ hw⟩
  junction op c cs hc hcs v d h := by
    obtain ⟨w, ws, -, hw, hws⟩ := h.junction_inv
    exact every_junction.mpr ⟨parsed_criterion (by simp), hc _ _ hw,
      forall_mem_of_denotes hws fun c hc v hv => hcs c hc v _ hv⟩
  comparison op a b ha hb v d h := by
    obtain ⟨w, x, -, hw, hx⟩ := h.comparison_inv
    exact every_comparison.mpr ⟨parsed_criterion (by simp), ha _ _ hw, hb _ _ hx⟩
  field t v d h := by
    obtain ⟨f, params, -, ht⟩ := h.field_inv
    exact every_field.mpr ht.parsed
  literal x v d h := by
    obtain ⟨n, -, rfl⟩ := h.literal_inv
    refine every_literal.mpr ⟨⟨trivial, ?_, trivial⟩, trivial⟩
    exact List.forall_mem_singleton.mpr n.isFinite_toDouble
  read f v d h := by
    have hf : f.plays (.ofGroup .numeric) = true := by simp [Field.plays, h.read_inv.2]
    exact every_read.mpr ⟨⟨hf, nofun, trivial⟩, trivial⟩
  binary op a b ha hb v d h := by
    obtain ⟨w, x, -, hw, hx⟩ := h.binary_inv
    exact every_binary.mpr ⟨parsed_operand (by simp) (by simp), ha _ _ hw, hb _ _ hx⟩
  unary op a ha v d h := by
    obtain ⟨w, -, hw⟩ := h.unary_inv
    exact every_unary.mpr ⟨parsed_operand (by simp) (by simp), ha _ _ hw⟩
  choice a as b ha has hb v d h := by
    obtain ⟨us, vs, ws, -, hus, hvs, hws⟩ := h.choice_inv
    exact every_choice.mpr ⟨parsed_operand (by simp) (by simp), ha _ _ hus,
      forall_mem_of_armsDenote hvs fun a ha vs hv => has a ha vs _ hv, hb _ _ hws⟩
  arm c a hc ha vs d h := by
    cases h with
    | cons hv hw _ => exact every_arm.mpr ⟨hc _ _ hv, ha _ _ hw⟩

/-- Every node of what a value denotes is sound and settled. -/
theorem Denotes.parsed {v : Value} {c : Criterion} (h : Denotes v c) :
    ∀ n ∈ c.nodes, n.node.Parsed :=
  parsed_hereditary.ofCriterion c v 1 h

theorem armsFit_text (t : CriterionTag) (params : List Value) : armsFit t.text params := by
  intro h
  have hnone : CriterionTag.ofText? OperandTag.choice.text = none := by decide
  rw [← h, CriterionTag.ofText?_text] at hnone
  cases hnone

theorem armsFit_tag (f : Field) (params : List Value) : armsFit f.tag params := by
  intro h
  have hnone : Field.ofTag? OperandTag.choice.text = none := by decide
  rw [← h, Field.ofTag?_tag] at hnone
  cases hnone

theorem armsFit_operandText (t : OperandTag) (ht : t ≠ .choice) (params : List Value) :
    armsFit t.text params := fun h => absurd (OperandTag.text_inj.mp h) ht

theorem fits_iff {d : Nat} {tag : String} {params : List Value} {n : Node}
    (h : params.length + 1 ≤ Limits.length ∧ armsFit tag params ↔ n.Narrow) :
    Tuple.Fits ⟨d, .string tag :: params⟩ ↔ Placed.Fits ⟨d, n⟩ := by
  rw [Tuple.fits_headed, h, Placed.Fits]

theorem fits_iff_of_short {d : Nat} {tag : String} {params : List Value} {n : Node}
    (hl : params.length ≤ 4) (ha : armsFit tag params) (hn : n.Narrow) :
    Tuple.Fits ⟨d, .string tag :: params⟩ ↔ Placed.Fits ⟨d, n⟩ := by
  have hl : params.length + 1 ≤ Limits.length := Nat.le_trans (Nat.succ_le_succ hl) (by decide)
  exact fits_iff ⟨fun _ => hn, fun _ => ⟨hl, ha⟩⟩

theorem fits_junction {d : Nat} {op : Connective} {params : List Value} {c : Criterion}
    {cs : List Criterion} (hl : params.length = (c :: cs).length) :
    Tuple.Fits ⟨d, .string (CriterionTag.junction op).text :: params⟩ ↔
      Placed.Fits ⟨d, .criterion (.junction op c cs)⟩ := by
  apply fits_iff
  have ha := armsFit_text (.junction op) params
  rw [Node.Narrow, hl, List.length_cons]
  exact ⟨fun h => h.1, fun h => ⟨h, ha⟩⟩

/-- The limit on arms is the stricter one. -/
theorem fits_choice {d : Nat} {params : List Value} {a b : Arm} {as : List Arm}
    (hl : params.length = 2 * (as.length + 2)) :
    Tuple.Fits ⟨d, .string OperandTag.choice.text :: params⟩ ↔
      Placed.Fits ⟨d, .operand (.choice a as b)⟩ := by
  apply fits_iff
  have hd : params.length / 2 = as.length + 2 := by omega
  have hlimits : 2 * Limits.arms + 1 ≤ Limits.length := by decide
  rw [Node.Narrow]
  constructor
  · rintro ⟨-, ha⟩
    exact hd ▸ ha rfl
  · intro h
    exact ⟨by omega, fun _ => hd ▸ h⟩

theorem match_criteria {d : Nat} {vs : List Value} {cs : List Criterion}
    (h : List.Forall₂ Denotes vs cs)
    (hm : ∀ c ∈ cs, ∀ v, Denotes v c → Match (tuplesAt d v) (c.nodesAt d)) :
    Match (tuplesAllAt d vs) (Criterion.nodesAllAt d cs) := by
  induction h with
  | nil => exact .nil
  | cons h _ ih =>
    obtain ⟨hc, hcs⟩ := List.forall_mem_cons.mp hm
    exact (hc _ h).append (ih hcs)

theorem match_arms {d : Nat} {vs : List Value} {as : List Arm} (h : ArmsDenote vs as)
    (hm : ∀ a ∈ as, ∀ vs, ArmsDenote vs [a] → Match (tuplesAllAt d vs) (a.nodesAt d)) :
    Match (tuplesAllAt d vs) (Arm.nodesAllAt d as) := by
  induction as generalizing vs with
  | nil =>
    cases h
    exact .nil
  | cons a as ih =>
    obtain ⟨v, w, rest, rfl, ha, has⟩ := h.cons_inv
    obtain ⟨hm, hms⟩ := List.forall_mem_cons.mp hm
    rw [tuplesAllAt_append]
    exact (hm _ ha).append (ih has hms)

theorem match_hereditary :
    Hereditary (fun c => ∀ v d, Denotes v c → Match (tuplesAt d v) (c.nodesAt d))
      (fun a => ∀ v d, OperandDenotes v a → Match (tuplesAt d v) (a.nodesAt d))
      (fun a => ∀ vs d, ArmsDenote vs [a] → Match (tuplesAllAt d vs) (a.nodesAt d)) where
  constant b v d h := by
    rw [h.constant_inv, tuplesAt_headed]
    exact .cons rfl (fits_iff_of_short (by decide) (armsFit_text _ _) trivial) .nil
  not c hc v d h := by
    obtain ⟨w, rfl, hw⟩ := h.not_inv
    rw [tuplesAt_headed, tuplesAllAt_single]
    exact .cons rfl (fits_iff_of_short (by simp) (armsFit_text _ _) trivial) (hc _ _ hw)
  junction op c cs hc hcs v d h := by
    obtain ⟨w, ws, rfl, hw, hws⟩ := h.junction_inv
    rw [tuplesAt_headed]
    exact .cons rfl (fits_junction (congrArg (· + 1) hws.length_eq))
      ((hc _ _ hw).append (match_criteria hws fun c hc v hv => hcs c hc v _ hv))
  comparison op a b ha hb v d h := by
    obtain ⟨w, x, rfl, hw, hx⟩ := h.comparison_inv
    rw [tuplesAt_headed, tuplesAllAt_pair]
    exact .cons rfl (fits_iff_of_short (by simp) (armsFit_text _ _) trivial)
      ((ha _ _ hw).append (hb _ _ hx))
  field t v d h := by
    obtain ⟨f, params, rfl, ht⟩ := h.field_inv
    rw [tuplesAt_headed, ht.tuples_eq_nil]
    exact .cons rfl (fits_iff_of_short ht.length_le (armsFit_tag _ _) trivial) .nil
  literal x v d h := by
    obtain ⟨n, rfl, -⟩ := h.literal_inv
    exact .skip rfl
  read f v d h := by
    rw [h.read_inv.1]
    exact .skip rfl
  binary op a b ha hb v d h := by
    obtain ⟨w, x, rfl, hw, hx⟩ := h.binary_inv
    rw [tuplesAt_headed, tuplesAllAt_pair]
    exact .cons rfl (fits_iff_of_short (by simp) (armsFit_operandText (.binary op) nofun _) trivial)
      ((ha _ _ hw).append (hb _ _ hx))
  unary op a ha v d h := by
    obtain ⟨w, rfl, hw⟩ := h.unary_inv
    rw [tuplesAt_headed, tuplesAllAt_single]
    exact .cons rfl (fits_iff_of_short (by simp) (armsFit_operandText (.unary op) nofun _) trivial)
      (ha _ _ hw)
  choice a as b ha has hb v d h := by
    obtain ⟨us, vs, ws, rfl, hus, hvs, hws⟩ := h.choice_inv
    have hl : (us ++ (vs ++ ws)).length = 2 * (as.length + 2) := by
      simp only [List.length_append, hus.length_eq, hvs.length_eq, hws.length_eq,
        List.length_singleton]
      omega
    rw [tuplesAt_headed, tuplesAllAt_append, tuplesAllAt_append]
    exact .cons rfl (fits_choice hl) ((ha _ _ hus).append
      ((match_arms hvs fun a ha vs hv => has a ha vs _ hv).append (hb _ _ hws)))
  arm c a hc ha vs d h := by
    cases h with
    | cons hv hw hnil =>
      cases hnil
      rw [tuplesAllAt_pair]
      exact (hc _ _ hv).append (ha _ _ hw)

/-- A value is within the limits just when what it denotes is. -/
theorem Denotes.withinLimits_iff {v : Value} {c : Criterion} (h : Denotes v c) :
    WithinLimits v ↔ c.WithinLimits :=
  (match_hereditary.ofCriterion c v 1 h).withinLimits_iff

end ScanCriteria.Wire
