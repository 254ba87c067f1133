import ScanCriteria.Proofs.Criterion.Agreement
import ScanCriteria.Proofs.Wire.LimitFaults
import ScanCriteria.Proofs.Wire.Recovery

/-!
# Writing what has been parsed

A tree that has been parsed is in a state to be written: its fields are in the lists for their tests,
its numbers are finite and its ranges have a bound. What is written has no `null` in it, and its
tuples are those of the value that was parsed, at the same depths and under the same tags, so it
exceeds no limit when it is parsed again.
-/
namespace ScanCriteria
open Json Wire

/-- The field of the test is in the list for it. -/
def FieldTest.Listed : FieldTest → Prop
  | hasValue f => f ∉ Field.subbedFields ∧ f ≠ .isIndex
  | boolean f _ => f ∈ Field.booleanFields
  | numeric f _ => f ∈ Field.numericFields
  | date f _ => f ∈ Field.dateFields
  | text f _ => f ∈ Field.textFields
  | price _ _ | dated _ _ | altCode _ _ | attributes _ _ => True

/-- The field of the node is in the list for it. -/
def Node.Listed : Node → Prop
  | criterion (.field t) => t.Listed
  | operand (.field f) => f ∈ Field.numericFields
  | _ => True

theorem FieldTest.listed {t : FieldTest} (h : t.InRole) (hs : t.settled = t) : t.Listed := by
  cases t with
  | hasValue f =>
    refine ⟨of_decide_eq_true (List.mem_filter.mp (Role.mem_fields_iff.mpr h)).2, ?_⟩
    rintro rfl
    cases hs
  | boolean | numeric | date | text => exact Role.mem_fields_iff.mpr h
  | price | dated | altCode | attributes => trivial

theorem Node.Parsed.listed {n : Node} (h : n.Parsed) : n.Listed := by
  cases n with
  | criterion c =>
    cases c with
    | field t => exact FieldTest.listed h.inRole h.settled
    | _ => trivial
  | operand a =>
    cases a with
    | field f => exact Role.mem_fields_iff.mpr h.inRole
    | _ => trivial

/-- The local time is a number of minutes from UTC. -/
def Moment.WholeMinutes (a : Moment) : Prop :=
  60 ∣ Calendar.localSeconds a.year a.month a.day a.hour a.minute a.second - a.seconds

theorem Moment.wholeMinutes (a : Moment) : a.WholeMinutes := by
  refine ⟨a.offset, ?_⟩
  rw [MomentParts.seconds]
  omega

namespace Wire

mutual

/-- There is no `null` in the value, at any depth. -/
def NullFree : Value → Prop
  | .null => False
  | .array items => NullFreeAll items
  | .object es => NullFreeEntries es
  | .bool _ | .number _ | .string _ => True

def NullFreeAll : List Value → Prop
  | [] => True
  | v :: vs => NullFree v ∧ NullFreeAll vs

def NullFreeEntries : List (String × Value) → Prop
  | [] => True
  | (_, v) :: es => NullFree v ∧ NullFreeEntries es

end

theorem nullFreeAll_iff {vs : List Value} : NullFreeAll vs ↔ ∀ v ∈ vs, NullFree v := by
  induction vs with
  | nil => exact iff_of_true trivial (List.forall_mem_nil _)
  | cons v vs ih => rw [NullFreeAll, ih, List.forall_mem_cons]

theorem nullFreeEntries_iff {es : List (String × Value)} :
    NullFreeEntries es ↔ ∀ e ∈ es, NullFree e.2 := by
  induction es with
  | nil => exact iff_of_true trivial (List.forall_mem_nil _)
  | cons e es ih => rw [NullFreeEntries, ih, List.forall_mem_cons]

theorem nullFree_headed {tag : String} {params : List Value} :
    NullFree (headed tag params) ↔ ∀ v ∈ params, NullFree v := by
  rw [headed, NullFree, NullFreeAll, nullFreeAll_iff]
  exact and_iff_right trivial

theorem nullFree_ofDouble {x : Double} (h : x.isFinite = true) : NullFree (.ofDouble x) := by
  rw [Value.ofDouble_of_isFinite h]
  trivial

theorem nullFree_target {α : Type} {f : α → Value} {t : Target α}
    (h : ∀ x ∈ t.values, NullFree (f x)) : NullFree (t.wire f) := by
  cases t with
  | equals x => exact h x (List.mem_singleton_self x)
  | inRange b =>
    obtain ⟨hmin, hmax⟩ := List.forall_mem_append.mp h
    have hentry (key : String) (o : Option α) (ho : ∀ x ∈ o.toList, NullFree (f x)) :
        ∀ e ∈ (o.map fun x => (key, f x)).toList, NullFree e.2 := by
      cases o with
      | none => nofun
      | some x => exact List.forall_mem_singleton.mpr (ho x (List.mem_singleton_self x))
    exact nullFreeEntries_iff.mpr
      (List.forall_mem_append.mpr ⟨hentry maxKey b.max hmax, hentry minKey b.min hmin⟩)

theorem nullFree_textMatch (p : TextMatch) : ∀ v ∈ p.wire, NullFree v := by
  simp [TextMatch.wire, NullFree, NullFreeEntries]

theorem nullFree_testParams {t : FieldTest} (h : ∀ x ∈ t.numbers, x.isFinite = true) :
    ∀ v ∈ testParams t, NullFree v := by
  have hnumber (u : Target Double) (hu : ∀ x ∈ u.values, x.isFinite = true) :
      NullFree (u.wire .ofDouble) := nullFree_target fun x hx => nullFree_ofDouble (hu x hx)
  have hmoment (u : Target Moment) : NullFree (u.wire Moment.wire) :=
    nullFree_target fun _ _ => trivial
  cases t with
  | hasValue f => exact List.forall_mem_nil _
  | boolean f b => exact List.forall_mem_singleton.mpr trivial
  | numeric f t => exact List.forall_mem_singleton.mpr (hnumber t h)
  | date f t => exact List.forall_mem_singleton.mpr (hmoment t)
  | text f p => exact nullFree_textMatch p
  | price s t =>
    refine List.forall_mem_cons.mpr ⟨trivial, ?_⟩
    cases t with
    | none => exact List.forall_mem_nil _
    | some t => exact List.forall_mem_singleton.mpr (hnumber t h)
  | dated s t =>
    refine List.forall_mem_cons.mpr ⟨trivial, ?_⟩
    cases t with
    | none => exact List.forall_mem_nil _
    | some t => exact List.forall_mem_singleton.mpr (hmoment t)
  | altCode s p | attributes s p =>
    refine List.forall_mem_cons.mpr ⟨trivial, ?_⟩
    cases p with
    | none => exact List.forall_mem_nil _
    | some p => exact nullFree_textMatch p

theorem nullFreeAll_wireAll {as : List Arm} {rest : List Value}
    (h : ∀ a ∈ as, ∀ rest, NullFreeAll rest → NullFreeAll (a.wireOnto rest))
    (hr : NullFreeAll rest) : NullFreeAll (Arm.wireAll as rest) := by
  induction as with
  | nil => exact hr
  | cons a as ih =>
    obtain ⟨ha, has⟩ := List.forall_mem_cons.mp h
    exact ha _ (ih has)

theorem nullFree_hereditary :
    Hereditary (fun c => ∀ d, (∀ n ∈ c.nodesAt d, n.node.Finite) → NullFree c.wire)
      (fun a => ∀ d, (∀ n ∈ a.nodesAt d, n.node.Finite) → NullFree a.wire)
      (fun a => ∀ d, (∀ n ∈ a.nodesAt d, n.node.Finite) → ∀ rest, NullFreeAll rest →
        NullFreeAll (a.wireOnto rest)) where
  constant b d _ := nullFree_headed.mpr (List.forall_mem_nil _)
  not c hc d h := nullFree_headed.mpr (List.forall_mem_singleton.mpr (hc _ (every_not.mp h).2))
  junction op c cs hc hcs d h := by
    obtain ⟨-, h, hs⟩ := every_junction.mp h
    rw [Criterion.wire, Criterion.wireAll_eq_map, nullFree_headed]
    refine List.forall_mem_cons.mpr ⟨hc _ h, List.forall_mem_map.mpr ?_⟩
    exact fun c hc => hcs c hc _ (hs c hc)
  comparison op a b ha hb d h := by
    obtain ⟨-, h, h'⟩ := every_comparison.mp h
    rw [Criterion.wire, nullFree_headed]
    exact List.forall_mem_cons.mpr ⟨ha _ h, List.forall_mem_singleton.mpr (hb _ h')⟩
  field t d h := by
    rw [Criterion.wire, wire_eq_headed, nullFree_headed]
    exact nullFree_testParams (every_field.mp h)
  literal x d h := nullFree_ofDouble (every_literal.mp h x (List.mem_singleton_self x))
  read f d _ := trivial
  binary op a b ha hb d h := by
    obtain ⟨-, h, h'⟩ := every_binary.mp h
    rw [Operand.wire, nullFree_headed]
    exact List.forall_mem_cons.mpr ⟨ha _ h, List.forall_mem_singleton.mpr (hb _ h')⟩
  unary op a ha d h := nullFree_headed.mpr (List.forall_mem_singleton.mpr (ha _ (every_unary.mp h).2))
  choice a as b ha has hb d h := by
    obtain ⟨-, h, hs, h'⟩ := every_choice.mp h
    rw [Operand.wire, nullFree_headed, ← nullFreeAll_iff]
    exact ha _ h _ (nullFreeAll_wireAll (fun a ha => has a ha _ (hs a ha)) (hb _ h' _ trivial))
  arm c a hc ha d h rest hr := by
    obtain ⟨h, h'⟩ := every_arm.mp h
    exact ⟨hc _ h, ha _ h', hr⟩

/-- The tuple `t` is written for the tuple `u`. A field tuple may have other parameters then; any
other tuple has as many. -/
structure Rewritten (t u : Tuple) : Prop where
  depth_eq : t.depth = u.depth
  items : ∃ tag ps qs, t.items = .string tag :: ps ∧ u.items = .string tag :: qs ∧
    ((∃ f : Field, f.tag = tag) ∧ t.items.length ≤ 4 ∨
      (∀ f : Field, f.tag ≠ tag) ∧ t.items.length = u.items.length)

theorem OperandTag.text_ne_tag (t : OperandTag) (f : Field) : t.text ≠ f.tag := by
  intro h
  have hnone : OperandTag.ofText? f.tag = none := by cases f <;> decide
  rw [← h, OperandTag.ofText?_text] at hnone
  cases hnone

section Tuples

variable {d : Nat} {tag : String} {ps qs : List Value}

theorem rewritten_headed (htag : ∀ f : Field, f.tag ≠ tag) (hl : ps.length = qs.length)
    (h : List.Forall₂ Rewritten (tuplesAllAt (d + 1) ps) (tuplesAllAt (d + 1) qs)) :
    List.Forall₂ Rewritten (tuplesAt d (headed tag ps)) (tuplesAt d (headed tag qs)) := by
  rw [tuplesAt_headed, tuplesAt_headed]
  exact .cons ⟨rfl, tag, ps, qs, rfl, rfl, .inr ⟨htag, congrArg (· + 1) hl⟩⟩ h

theorem rewritten_criterion {t : CriterionTag} (hl : ps.length = qs.length)
    (h : List.Forall₂ Rewritten (tuplesAllAt (d + 1) ps) (tuplesAllAt (d + 1) qs)) :
    List.Forall₂ Rewritten (tuplesAt d (headed t.text ps)) (tuplesAt d (headed t.text qs)) :=
  rewritten_headed (fun f => (t.text_ne_tag f).symm) hl h

theorem rewritten_operand {t : OperandTag} (hl : ps.length = qs.length)
    (h : List.Forall₂ Rewritten (tuplesAllAt (d + 1) ps) (tuplesAllAt (d + 1) qs)) :
    List.Forall₂ Rewritten (tuplesAt d (headed t.text ps)) (tuplesAt d (headed t.text qs)) :=
  rewritten_headed (fun f => (t.text_ne_tag f).symm) hl h

theorem rewritten_criteria {ws : List Value} {cs : List Criterion} (h : List.Forall₂ Denotes ws cs)
    (hc : ∀ c ∈ cs, ∀ v, Denotes v c →
      List.Forall₂ Rewritten (tuplesAt d c.wire) (tuplesAt d v)) :
    List.Forall₂ Rewritten (tuplesAllAt d (Criterion.wireAll cs)) (tuplesAllAt d ws) := by
  induction h with
  | nil => exact .nil
  | cons h _ ih =>
    obtain ⟨hc, hcs⟩ := List.forall_mem_cons.mp hc
    exact List.rel_append (hc _ h) (ih hcs)

/-- What an arm puts in front of the rest is written for the values of the arm. -/
def ArmRewritten (d : Nat) (a : Arm) : Prop :=
  ∀ us, ArmsDenote us [a] → ∀ rest rest',
    List.Forall₂ Rewritten (tuplesAllAt d rest) (tuplesAllAt d rest') →
      List.Forall₂ Rewritten (tuplesAllAt d (a.wireOnto rest)) (tuplesAllAt d (us ++ rest'))

theorem rewritten_arms {vs : List Value} {as : List Arm} (h : ArmsDenote vs as)
    (ha : ∀ a ∈ as, ArmRewritten d a) {rest rest' : List Value}
    (hr : List.Forall₂ Rewritten (tuplesAllAt d rest) (tuplesAllAt d rest')) :
    List.Forall₂ Rewritten (tuplesAllAt d (Arm.wireAll as rest)) (tuplesAllAt d (vs ++ rest')) := by
  induction as generalizing vs with
  | nil =>
    cases h
    exact hr
  | cons a as ih =>
    obtain ⟨v, w, us, rfl, hv, hvs⟩ := h.cons_inv
    obtain ⟨ha, has⟩ := List.forall_mem_cons.mp ha
    rw [List.append_assoc]
    exact ha _ hv _ _ (ih hvs has)

theorem rewritten_hereditary :
    Hereditary
      (fun c => ∀ d v, Denotes v c → List.Forall₂ Rewritten (tuplesAt d c.wire) (tuplesAt d v))
      (fun a => ∀ d v, OperandDenotes v a →
        List.Forall₂ Rewritten (tuplesAt d a.wire) (tuplesAt d v))
      (fun a => ∀ d, ArmRewritten d a) where
  constant b d v h := by
    rw [h.constant_inv]
    exact rewritten_criterion rfl .nil
  not c hc d v h := by
    obtain ⟨w, rfl, hw⟩ := h.not_inv
    rw [Criterion.wire]
    apply rewritten_criterion
    · rfl
    · rw [tuplesAllAt_single, tuplesAllAt_single]
      exact hc _ w hw
  junction op c cs hc hcs d v h := by
    obtain ⟨w, ws, rfl, hw, hws⟩ := h.junction_inv
    have hl : (c.wire :: Criterion.wireAll cs).length = (w :: ws).length := by
      simp [Criterion.wireAll_eq_map, hws.length_eq]
    exact rewritten_criterion hl (List.rel_append (hc _ w hw)
      (rewritten_criteria hws fun c hc v hv => hcs c hc _ v hv))
  comparison op a b ha hb d v h := by
    obtain ⟨w, x, rfl, hw, hx⟩ := h.comparison_inv
    rw [Criterion.wire]
    apply rewritten_criterion
    · rfl
    · rw [tuplesAllAt_pair, tuplesAllAt_pair]
      exact List.rel_append (ha _ w hw) (hb _ x hx)
  field t d v h := by
    obtain ⟨f, params, rfl, ht⟩ := h.field_inv
    rw [Criterion.wire, wire_eq_headed, tuplesAt_headed, tuplesAt_headed, tuples_testParams,
      ht.tuples_eq_nil]
    refine .cons ⟨rfl, f.tag, testParams t, params, ?_, rfl, .inl ⟨⟨f, rfl⟩, ?_⟩⟩ .nil
    · rw [ht.testField_eq]
    · exact Nat.succ_le_succ (length_testParams t)
  literal x d v h := by
    obtain ⟨n, rfl, rfl⟩ := h.literal_inv
    rw [Operand.wire, tuplesAt_ofDouble]
    exact .nil
  read f d v h := by
    obtain ⟨rfl, -⟩ := h.read_inv
    exact .nil
  binary op a b ha hb d v h := by
    obtain ⟨w, x, rfl, hw, hx⟩ := h.binary_inv
    rw [Operand.wire]
    apply rewritten_operand
    · rfl
    · rw [tuplesAllAt_pair, tuplesAllAt_pair]
      exact List.rel_append (ha _ w hw) (hb _ x hx)
  unary op a ha d v h := by
    obtain ⟨w, rfl, hw⟩ := h.unary_inv
    rw [Operand.wire]
    apply rewritten_operand
    · rfl
    · rw [tuplesAllAt_single, tuplesAllAt_single]
      exact ha _ w hw
  choice a as b ha has hb d v h := by
    obtain ⟨us, vs, ws, rfl, hus, hvs, hws⟩ := h.choice_inv
    have hl : (a.wireOnto (Arm.wireAll as (b.wireOnto []))).length = (us ++ (vs ++ ws)).length := by
      rw [length_wireOnto, length_wireAll, length_wireOnto, List.length_append, List.length_append,
        hus.length_eq, hvs.length_eq, hws.length_eq]
      simp only [List.length_cons, List.length_nil]
      omega
    have hlast := hb (d + 1) ws hws [] [] .nil
    rw [List.append_nil] at hlast
    exact rewritten_operand hl
      (ha _ us hus _ _ (rewritten_arms hvs (fun a ha => has a ha (d + 1)) hlast))
  arm c a hc ha d us h rest rest' hr := by
    cases h with
    | @cons v w _ _ _ _ hv hw h =>
      cases h
      exact List.rel_append (hc d v hv) (List.rel_append (ha d w hw) hr)

end Tuples

/-- What has been parsed can be written without any `null`, and what is written has the tuples of the
value that was parsed; so no limit keeps it from being parsed again. -/
theorem parse_rewrites {v : Value} {p : Parsed} (h : parse v = .ok p) :
    (∀ n ∈ p.criterion.nodes, n.node.Listed ∧ n.node.Bounded ∧ n.node.Finite ∧
        ∀ a ∈ n.node.moments, a.WholeMinutes) ∧
      ∃ w, (serialize p.criterion).result = .ok w ∧ NullFree w ∧
        List.Forall₂ Rewritten (tuplesAt 1 w) (tuplesAt 1 v) ∧
        ∀ f, parse w = .error f → f.fault.faultClass ≠ .limit := by
  obtain ⟨hparsed, hlimits⟩ := parsed_of_parse h
  obtain ⟨hv, -⟩ := runs_criterion_iff.mp ⟨p.progress, parse_eq_ok.mp h⟩
  have hfinite (n : Placed) (hn : n ∈ p.criterion.nodes) : n.node.Finite := (hparsed n hn).finite
  constructor
  · intro n hn
    exact ⟨(hparsed n hn).listed, (hparsed n hn).bounded, hfinite n hn, fun a _ => a.wholeMinutes⟩
  · refine ⟨p.criterion.wire, serialize_result fun n hn => (hparsed n hn).inRole,
      nullFree_hereditary.ofCriterion _ 1 hfinite, rewritten_hereditary.ofCriterion _ 1 v hv, ?_⟩
    exact fun f => parse_noLimit (withinLimits_wire_iff.mpr hlimits)

/-- A range without its lower bound is given by position, and `null` stands for the bound. -/
def volumeUpToFive : Value :=
  headed "Or" [headed "Volume" [.null, .number (.integer 5 (by decide))], headed "IsIndex" []]

def atMostFive : Criterion :=
  .junction .or (.field (.numeric .volume (.inRange ⟨none, some (.ofInt 5)⟩)))
    [.field (.boolean .isIndex true)]

theorem parse_volumeUpToFive : ∃ p, parse volumeUpToFive = .ok ⟨atMostFive, p⟩ := by
  have hvolume : Denotes (headed "Volume" [.null, .number (.integer 5 (by decide))])
      (.field (.numeric .volume (.inRange ⟨none, some (.ofInt 5)⟩))) :=
    .field (f := .volume) (.numeric rfl (.positional .absent (.present (.mk _)) (.inr rfl)))
  have hindex : Denotes (headed "IsIndex" []) (.field (.boolean .isIndex true)) :=
    .field (f := .isIndex) (.isTrue rfl)
  have hd : Denotes volumeUpToFive atMostFive :=
    .criterion (t := .junction .or) (.junction .or (.cons hvolume (.cons hindex .nil)))
  simp only [parse_eq_ok]
  exact runs_criterion_iff.mpr ⟨hd, hd.withinLimits_iff.mpr (by decide)⟩

theorem parse_rewrites_volumeUpToFive :
    ∃ p, parse volumeUpToFive = .ok ⟨atMostFive, p⟩ ∧
      ∃ w, (serialize atMostFive).result = .ok w ∧ NullFree w ∧
        List.Forall₂ Rewritten (tuplesAt 1 w) (tuplesAt 1 volumeUpToFive) ∧
        ∀ f, parse w = .error f → f.fault.faultClass ≠ .limit := by
  obtain ⟨p, hp⟩ := parse_volumeUpToFive
  obtain ⟨-, hw⟩ := parse_rewrites hp
  exact ⟨p, hp, hw⟩

end Wire
end ScanCriteria
