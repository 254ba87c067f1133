import ScanCriteria.Proofs.Criterion.Agreement
import ScanCriteria.Proofs.Criterion.TestDocuments

/-!
# Reading criteria back from documents

The document of a tree is read as the tree, without the bounds that are not finite. It is refused if
another number is not finite, wherever that number stands, and also if any list of operands or of
arms in it is made empty.
-/
namespace ScanCriteria
open Json

/-- The number of the node is finite, unless it is a bound. -/
def Node.Legible : Node → Prop
  | criterion (.field t) => t.Legible
  | operand (.literal x) => x.isFinite = true
  | _ => True

instance : DecidablePred Node.Legible
  | .criterion (.field t) => inferInstanceAs (Decidable t.Legible)
  | .operand (.literal x) => inferInstanceAs (Decidable (x.isFinite = true))
  | .criterion (.constant _) | .criterion (.not _) | .criterion (.junction _ _ _)
  | .criterion (.comparison _ _ _) | .operand (.field _) | .operand (.binary _ _ _)
  | .operand (.unary _ _) | .operand (.choice _ _ _) => inferInstanceAs (Decidable True)

theorem Criterion.documents_eq_map (cs : List Criterion) :
    Criterion.documents cs = cs.map Criterion.document := by
  induction cs with
  | nil => rfl
  | cons c cs ih => rw [Criterion.documents, ih, List.map_cons]

theorem Arm.documents_eq_map (as : List Arm) : Arm.documents as = as.map Arm.document := by
  induction as with
  | nil => rfl
  | cons a as ih => rw [Arm.documents, ih, List.map_cons]

namespace Document

section Faults

variable {α β : Type}

theorem anyFault_eq_some {x : Except DocumentFault α} {a : α} :
    anyFault x = some a ↔ x = .ok a := by
  cases x <;> simp [anyFault]

theorem anyFault_eq_none {x : Except DocumentFault α} :
    anyFault x = none ↔ ∃ f, x = .error f := by
  cases x <;> simp [anyFault]

theorem anyFault_map (x : Except DocumentFault α) (g : α → β) :
    anyFault (x.map g) = (anyFault x).map g := by
  cases x <;> rfl

theorem anyFault_bind (x : Except DocumentFault α) (g : α → Except DocumentFault β) :
    anyFault (x >>= g) = anyFault x >>= fun a => anyFault (g a) := by
  cases x <;> rfl

theorem anyFault_orMalformed (x : Option α) : anyFault (orMalformed x) = x := by
  cases x <;> rfl

end Faults

theorem announced_kind (p : Place) (k : Kind) (es : Entries Value) :
    (typeId? (("typeId", .string k.label) :: es) >>= criterionForm? p) = some (.ofKind k) := by
  have hk : kind? p (.string k.label) = some k := by
    cases p <;> exact k.ofLabel?_label
  exact congrArg (Option.map CriterionForm.ofKind) hk

theorem ofKind_connective (op : Connective) : CriterionForm.ofKind op.kind = .junction op := by
  cases op <;> rfl

theorem ofKind_comparison (op : Comparison) : CriterionForm.ofKind op.kind = .comparison op := by
  cases op <;> rfl

theorem ofKind_test (t : FieldTest) : CriterionForm.ofKind t.kind = .field t.kind := by
  cases t with
  | hasValue | boolean | text => rfl
  | numeric f t | date f t => cases t <;> rfl
  | price s t | dated s t => rcases t with _ | _ | _ <;> rfl
  | altCode s p | attributes s p => cases p <;> rfl

theorem announced_operand (s : String) (form : OperandForm) (hs : form.label = s)
    (es : Entries Value) :
    (typeId? (("typeId", .string s) :: es) >>= operandForm?) = some form := by
  subst hs
  cases form with
  | binary op => cases op <;> rfl
  | unary op => cases op <;> rfl
  | field => rfl
  | choice => rfl

section Labelled

variable {p : Place}

theorem criterion_constant (b : Bool) :
    anyFault (criterion p (Criterion.constant b).document) = some (.constant b) := by
  rw [Criterion.document, labelled, criterion, announced_kind]
  cases b <;> rfl

theorem criterion_not (v : Value) :
    anyFault (criterion p (labelled Kind.not.label [("operand", v)])) =
      (anyFault (criterion .inner v)).map .not := by
  rw [labelled, criterion, announced_kind]
  exact anyFault_map _ _

theorem criteria_eq_mapM (vs : List Value) :
    anyFault (criteria vs) = vs.mapM fun v => anyFault (criterion .inner v) := by
  induction vs with
  | nil => rfl
  | cons v vs ih =>
    rw [criteria, anyFault_bind, List.mapM_cons, ← ih]
    exact congrArg _ (funext fun c => anyFault_bind _ _)

theorem criterion_junction (op : Connective) (vs : List Value) :
    anyFault (criterion p (labelled op.kind.label [("operands", .array vs)])) =
      (vs.mapM fun v => anyFault (criterion .inner v)) >>= fun cs => anyFault (junction op cs) := by
  rw [labelled, criterion, announced_kind, ofKind_connective, ← criteria_eq_mapM]
  exact anyFault_bind _ _

theorem criterion_comparison (op : Comparison) (v w : Value) :
    anyFault (criterion p (labelled op.kind.label [("left", v), ("right", w)])) = do
      let a ← operand? v
      let b ← operand? w
      return .comparison op a b := by
  rw [labelled, criterion, announced_kind, ofKind_comparison]
  exact anyFault_orMalformed _

theorem criterion_test (t : FieldTest) :
    anyFault (criterion p (Criterion.field t).document) =
      (fieldTest? t.kind (("typeId", .string t.kind.label) :: t.documentEntries)).map .field := by
  rw [Criterion.document, labelled, criterion, announced_kind, ofKind_test]
  exact anyFault_orMalformed _

theorem operand?_literal (x : Double) :
    operand? (Operand.literal x).document = if x.isFinite then some (.literal x) else none := by
  obtain ⟨hx, h⟩ | ⟨hx, h⟩ := Value.ofDouble_cases x <;> rw [Operand.document, h, hx] <;> rfl

theorem operand?_field (f : Field) : operand? (Operand.field f).document = some (.field f) := by
  rw [Operand.document, labelled, operand?, announced_operand fieldValueLabel .field rfl]
  exact congrArg (Option.map Operand.field) (field?_eq rfl)

theorem operand?_binary (op : Binary) (v w : Value) :
    operand? (labelled op.label [("left", v), ("right", w)]) = do
      let a ← operand? v
      let b ← operand? w
      return .binary op a b := by
  rw [labelled, operand?, announced_operand op.label (.binary op) rfl]
  rfl

theorem operand?_unary (op : Unary) (v : Value) :
    operand? (labelled op.label [("operand", v)]) = (operand? v).map (.unary op) := by
  rw [labelled, operand?, announced_operand op.label (.unary op) rfl]
  rfl

theorem arms_eq_mapM (vs : List Value) : arms vs = vs.mapM arm? := by
  induction vs with
  | nil => rfl
  | cons v vs ih =>
    rw [arms, List.mapM_cons, ih]

theorem operand?_choice (vs : List Value) (w : Value) :
    operand? (labelled choiceLabel [("true_arms", .array vs), ("false_arm", w)]) =
      (do choice? (← vs.mapM arm?) (← arm? w)) := by
  rw [labelled, operand?, announced_operand choiceLabel .choice rfl, ← arms_eq_mapM]
  rfl

theorem arm?_entries (v w : Value) :
    arm? (.object [("condition", v), ("value", w)]) = do
      let c ← anyFault (criterion .inner v)
      let a ← operand? w
      return .mk c a := rfl

end Labelled

theorem ReadsAs.mapM {α β γ : Type} {read : β → Option γ} {f : α → β} {ok : α → Prop} {g : α → γ}
    {xs : List α} (h : ∀ x ∈ xs, ReadsAs (read (f x)) (ok x) (g x)) :
    ReadsAs ((xs.map f).mapM read) (∀ x ∈ xs, ok x) (xs.map g) := by
  induction xs with
  | nil => exact (ReadsAs.pure []).congr (iff_of_true trivial (List.forall_mem_nil _))
  | cons x xs ih =>
    obtain ⟨hx, hxs⟩ := List.forall_mem_cons.mp h
    rw [List.map_cons, List.mapM_cons]
    exact (hx.bind ((ih hxs).into (g x :: ·))).congr List.forall_mem_cons.symm

/-- A document is read just when every node in it is legible, without the bounds that are lost. -/
theorem documents_hereditary :
    Hereditary
      (fun c => ∀ p d, ReadsAs (anyFault (criterion p c.document))
        (∀ n ∈ c.nodesAt d, n.node.Legible) (c.mapTests FieldTest.withFiniteBounds))
      (fun a => ∀ d, ReadsAs (operand? a.document) (∀ n ∈ a.nodesAt d, n.node.Legible)
        (a.mapTests FieldTest.withFiniteBounds))
      (fun a => ∀ d, ReadsAs (arm? a.document) (∀ n ∈ a.nodesAt d, n.node.Legible)
        (a.mapTests FieldTest.withFiniteBounds)) where
  constant b p d := by
    rw [criterion_constant]
    exact (ReadsAs.pure _).congr (every_constant (P := Node.Legible)).symm
  not c hc p d := by
    rw [Criterion.document, criterion_not]
    exact ((hc .inner (d + 1)).map Criterion.not).congr
      (every_not.trans (and_iff_right trivial)).symm
  junction op c cs hc hcs p d := by
    have hall : ReadsAs
        (((c :: cs).map Criterion.document).mapM fun v => anyFault (criterion .inner v))
        (∀ e ∈ c :: cs, ∀ n ∈ e.nodesAt (d + 1), n.node.Legible)
        ((c :: cs).map (Criterion.mapTests FieldTest.withFiniteBounds)) :=
      .mapM (List.forall_mem_cons.mpr ⟨hc .inner (d + 1), fun e he => hcs e he .inner (d + 1)⟩)
    rw [Criterion.document, Criterion.documents_eq_map, ← List.map_cons, criterion_junction,
      Criterion.mapTests, Criterion.mapTestsAll_eq_map]
    refine (hall.bind (.pure (Criterion.junction op _ _))).congr ?_
    rw [and_iff_left trivial, List.forall_mem_cons, every_junction]
    exact (and_iff_right trivial).symm
  comparison op a b ha hb p d := by
    rw [Criterion.document, criterion_comparison]
    exact ((ha (d + 1)).bind ((hb (d + 1)).into _)).congr
      (every_comparison.trans (and_iff_right trivial)).symm
  field t p d := by
    rw [criterion_test]
    exact ((fieldTest?_documentEntries t _).map Criterion.field).congr
      (every_field (P := Node.Legible)).symm
  literal x d := by
    rw [operand?_literal]
    exact (ReadsAs.ofKept _ _).congr (every_literal (P := Node.Legible)).symm
  read f d := by
    rw [operand?_field]
    exact (ReadsAs.pure _).congr (every_read (P := Node.Legible)).symm
  binary op a b ha hb d := by
    rw [Operand.document, operand?_binary]
    exact ((ha (d + 1)).bind ((hb (d + 1)).into _)).congr
      (every_binary.trans (and_iff_right trivial)).symm
  unary op a ha d := by
    rw [Operand.document, operand?_unary]
    exact ((ha (d + 1)).map _).congr (every_unary.trans (and_iff_right trivial)).symm
  choice a as b ha has hb d := by
    have hall : ReadsAs (((a :: as).map Arm.document).mapM arm?)
        (∀ e ∈ a :: as, ∀ n ∈ e.nodesAt (d + 1), n.node.Legible)
        ((a :: as).map (Arm.mapTests FieldTest.withFiniteBounds)) :=
      .mapM (List.forall_mem_cons.mpr ⟨ha (d + 1), fun e he => has e he (d + 1)⟩)
    rw [Operand.document, Arm.documents_eq_map, ← List.map_cons, operand?_choice,
      Operand.mapTests, Arm.mapTestsAll_eq_map]
    refine (hall.bind ((hb (d + 1)).bind (.pure (Operand.choice _ _ _)))).congr ?_
    rw [and_iff_left trivial, List.forall_mem_cons, every_choice, and_assoc]
    exact (and_iff_right trivial).symm
  arm c a hc ha d := by
    rw [Arm.document, arm?_entries]
    exact ((hc .inner d).bind ((ha d).into _)).congr every_arm.symm

/-- The keys of the lists that are never empty. -/
def listKeys : List String := ["operands", "true_arms"]

mutual

/-- One list of operands or of arms, anywhere in the first value, is empty in the second. -/
inductive Emptied : Value → Value → Prop
  | items {vs ws : List Value} (h : EmptiedIn vs ws) : Emptied (.array vs) (.array ws)
  | entries {es fs : Entries Value} (h : EmptiedUnder es fs) : Emptied (.object es) (.object fs)

inductive EmptiedIn : List Value → List Value → Prop
  | head {v w : Value} {vs : List Value} (h : Emptied v w) : EmptiedIn (v :: vs) (w :: vs)
  | tail {v : Value} {vs ws : List Value} (h : EmptiedIn vs ws) : EmptiedIn (v :: vs) (v :: ws)

inductive EmptiedUnder : Entries Value → Entries Value → Prop
  | list {key : String} {vs : List Value} {es : Entries Value} (h : key ∈ listKeys) :
    EmptiedUnder ((key, .array vs) :: es) ((key, .array []) :: es)
  | head {key : String} {v w : Value} {es : Entries Value} (h : Emptied v w) :
    EmptiedUnder ((key, v) :: es) ((key, w) :: es)
  | tail {e : String × Value} {es fs : Entries Value} (h : EmptiedUnder es fs) :
    EmptiedUnder (e :: es) (e :: fs)

end

/-- A value that holds no others. -/
def isAtomic : Value → Bool
  | .array _ | .object _ => false
  | _ => true

section Emptied

variable {key other : String} {v w : Value} {vs ws : List Value} {es fs : Entries Value}

theorem Emptied.not_atomic (h : Emptied v w) : isAtomic v = false := by
  cases h <;> rfl

theorem isAtomic_ofDouble (x : Double) : isAtomic (.ofDouble x) = true := by
  obtain ⟨_, h⟩ | ⟨_, h⟩ := Value.ofDouble_cases x <;> rw [h] <;> rfl

theorem EmptiedUnder.cons_cases (h : EmptiedUnder ((key, v) :: es) fs) :
    (∃ w, fs = (key, w) :: es ∧ (Emptied v w ∨ key ∈ listKeys ∧ w = .array [])) ∨
      ∃ gs, fs = (key, v) :: gs ∧ EmptiedUnder es gs := by
  cases h with
  | list hkey => exact .inl ⟨_, rfl, .inr ⟨hkey, rfl⟩⟩
  | head h => exact .inl ⟨_, rfl, .inl h⟩
  | tail h => exact .inr ⟨_, rfl, h⟩

theorem not_emptiedUnder_nil : ¬ EmptiedUnder [] fs := nofun

/-- Under a key of another kind no list is emptied itself. -/
theorem EmptiedUnder.single (h : EmptiedUnder [(key, v)] fs) (hkey : key ∉ listKeys) :
    ∃ w, fs = [(key, w)] ∧ Emptied v w := by
  obtain ⟨w, rfl, hw | ⟨hlist, -⟩⟩ | ⟨gs, rfl, hgs⟩ := h.cons_cases
  · exact ⟨w, rfl, hw⟩
  · exact absurd hlist hkey
  · exact absurd hgs not_emptiedUnder_nil

theorem EmptiedUnder.pair (h : EmptiedUnder [(key, v), (other, w)] fs) (hkey : key ∉ listKeys)
    (hother : other ∉ listKeys) :
    (∃ u, fs = [(key, u), (other, w)] ∧ Emptied v u) ∨
      ∃ u, fs = [(key, v), (other, u)] ∧ Emptied w u := by
  obtain ⟨u, rfl, hu | ⟨hlist, -⟩⟩ | ⟨gs, rfl, hgs⟩ := h.cons_cases
  · exact .inl ⟨u, rfl, hu⟩
  · exact absurd hlist hkey
  · obtain ⟨u, rfl, hu⟩ := hgs.single hother
    exact .inr ⟨u, rfl, hu⟩

/-- Either the list under the first key is emptied, or an item of it. -/
theorem EmptiedUnder.array_cases (h : EmptiedUnder ((key, .array vs) :: es) fs) :
    (∃ ws, fs = (key, .array ws) :: es ∧ (EmptiedIn vs ws ∨ ws = [])) ∨
      ∃ gs, fs = (key, .array vs) :: gs ∧ EmptiedUnder es gs := by
  cases h with
  | list _ => exact .inl ⟨[], rfl, .inr rfl⟩
  | head h =>
    cases h with
    | items h => exact .inl ⟨_, rfl, .inl h⟩
  | tail h => exact .inr ⟨_, rfl, h⟩

theorem EmptiedUnder.exists_not_atomic (h : EmptiedUnder es fs) :
    ∃ e ∈ es, isAtomic e.2 = false := by
  induction es generalizing fs with
  | nil => cases h
  | cons e es ih =>
    cases h with
    | list _ => exact ⟨_, List.mem_cons_self, rfl⟩
    | head h => exact ⟨_, List.mem_cons_self, h.not_atomic⟩
    | tail h =>
      obtain ⟨e, he, hatomic⟩ := ih h
      exact ⟨e, List.mem_cons_of_mem _ he, hatomic⟩

theorem emptied_labelled {typeId : String} (h : Emptied (labelled typeId es) v) :
    ∃ fs, v = labelled typeId fs ∧ EmptiedUnder es fs := by
  cases h with
  | entries h =>
    cases h with
    | head h => cases h
    | tail h => exact ⟨_, rfl, h⟩

theorem EmptiedIn.mapM_eq_none {α : Type} {read : Value → Option α} (h : EmptiedIn vs ws)
    (hread : ∀ v ∈ vs, ∀ w, Emptied v w → read w = none) : ws.mapM read = none := by
  induction vs generalizing ws with
  | nil => cases h
  | cons v vs ih =>
    obtain ⟨hv, hvs⟩ := List.forall_mem_cons.mp hread
    cases h with
    | head h => rw [List.mapM_cons, hv _ h, Option.bind_eq_bind, Option.bind_none]
    | tail h =>
      rw [List.mapM_cons, ih h hvs]
      exact Option.bind_fun_none _

end Emptied

theorem targetEntries_atomic {α : Type} {f : α → Value} (hf : ∀ x, isAtomic (f x) = true)
    (t : Target α) : ∀ e ∈ t.documentEntries f, isAtomic e.2 = true := by
  have hbound (o : Option α) : isAtomic (boundDocument f o) = true := by
    cases o with
    | none => rfl
    | some x => exact hf x
  cases t with
  | equals x => exact List.forall_mem_singleton.mpr (hf x)
  | inRange b =>
    exact List.forall_mem_cons.mpr ⟨hbound b.min, List.forall_mem_singleton.mpr (hbound b.max)⟩

theorem patternEntries_atomic (p : TextMatch) : ∀ e ∈ p.documentEntries, isAtomic e.2 = true := by
  simp [TextMatch.documentEntries, isAtomic]

/-- A test holds no lists. -/
theorem testEntries_atomic (t : FieldTest) : ∀ e ∈ t.documentEntries, isAtomic e.2 = true := by
  have hnumber : ∀ t : Target Double, ∀ e ∈ t.documentEntries .ofDouble, isAtomic e.2 = true :=
    targetEntries_atomic isAtomic_ofDouble
  have hmoment : ∀ t : Target Moment, ∀ e ∈ t.documentEntries Moment.document,
      isAtomic e.2 = true := targetEntries_atomic fun _ => rfl
  have hoption {α : Type} {f : α → List (String × Value)}
      (hf : ∀ x, ∀ e ∈ f x, isAtomic e.2 = true) (o : Option α) :
      ∀ e ∈ optionEntries f o, isAtomic e.2 = true := by
    cases o with
    | none => exact List.forall_mem_nil _
    | some x => exact hf x
  cases t with
  | hasValue f => exact List.forall_mem_singleton.mpr rfl
  | boolean f b => exact List.forall_mem_cons.mpr ⟨rfl, List.forall_mem_singleton.mpr rfl⟩
  | numeric f t => exact List.forall_mem_cons.mpr ⟨rfl, hnumber t⟩
  | date f t => exact List.forall_mem_cons.mpr ⟨rfl, hmoment t⟩
  | text f p => exact List.forall_mem_cons.mpr ⟨rfl, patternEntries_atomic p⟩
  | price s t => exact List.forall_mem_cons.mpr ⟨rfl, hoption hnumber t⟩
  | dated s t => exact List.forall_mem_cons.mpr ⟨rfl, hoption hmoment t⟩
  | altCode s p => exact List.forall_mem_cons.mpr ⟨rfl, hoption patternEntries_atomic p⟩
  | attributes s p => exact List.forall_mem_cons.mpr ⟨rfl, hoption patternEntries_atomic p⟩

/-- A list made empty anywhere below a node keeps the node from being read. -/
theorem emptied_hereditary :
    Hereditary (fun c => ∀ p v, Emptied c.document v → anyFault (criterion p v) = none)
      (fun a => ∀ v, Emptied a.document v → operand? v = none)
      (fun a => ∀ v, Emptied a.document v → arm? v = none) where
  constant b p v h := by
    obtain ⟨fs, rfl, hfs⟩ := emptied_labelled h
    exact absurd hfs not_emptiedUnder_nil
  not c hc p v h := by
    obtain ⟨fs, rfl, hfs⟩ := emptied_labelled h
    obtain ⟨w, rfl, hw⟩ := hfs.single (by decide)
    rw [criterion_not, hc _ _ hw, Option.map_none]
  junction op c cs hc hcs p v h := by
    obtain ⟨fs, rfl, hfs⟩ := emptied_labelled h
    obtain ⟨ws, rfl, hws | rfl⟩ | ⟨gs, rfl, hgs⟩ := hfs.array_cases
    · rw [Criterion.documents_eq_map, ← List.map_cons] at hws
      have hnone := hws.mapM_eq_none (List.forall_mem_map.mpr
        (List.forall_mem_cons.mpr ⟨hc .inner, fun e he => hcs e he .inner⟩))
      rw [criterion_junction, hnone]
      rfl
    · rw [criterion_junction]
      rfl
    · exact absurd hgs not_emptiedUnder_nil
  comparison op a b ha hb p v h := by
    obtain ⟨fs, rfl, hfs⟩ := emptied_labelled h
    obtain ⟨w, rfl, hw⟩ | ⟨w, rfl, hw⟩ := hfs.pair (by decide) (by decide)
    · rw [criterion_comparison, ha _ hw]
      rfl
    · rw [criterion_comparison, hb _ hw]
      exact Option.bind_fun_none _
  field t p v h := by
    obtain ⟨fs, rfl, hfs⟩ := emptied_labelled h
    obtain ⟨e, he, hatomic⟩ := hfs.exists_not_atomic
    exact absurd (testEntries_atomic t e he) (hatomic ▸ Bool.false_ne_true)
  literal x v h := absurd (isAtomic_ofDouble x) (h.not_atomic ▸ Bool.false_ne_true)
  read f v h := by
    obtain ⟨fs, rfl, hfs⟩ := emptied_labelled h
    obtain ⟨w, rfl, hw⟩ := hfs.single (by decide)
    cases hw
  binary op a b ha hb v h := by
    obtain ⟨fs, rfl, hfs⟩ := emptied_labelled h
    obtain ⟨w, rfl, hw⟩ | ⟨w, rfl, hw⟩ := hfs.pair (by decide) (by decide)
    · rw [operand?_binary, ha _ hw]
      rfl
    · rw [operand?_binary, hb _ hw]
      exact Option.bind_fun_none _
  unary op a ha v h := by
    obtain ⟨fs, rfl, hfs⟩ := emptied_labelled h
    obtain ⟨w, rfl, hw⟩ := hfs.single (by decide)
    rw [operand?_unary, ha _ hw, Option.map_none]
  choice a as b ha has hb v h := by
    obtain ⟨fs, rfl, hfs⟩ := emptied_labelled h
    obtain ⟨ws, rfl, hws | rfl⟩ | ⟨gs, rfl, hgs⟩ := hfs.array_cases
    · rw [Arm.documents_eq_map, ← List.map_cons] at hws
      have hnone := hws.mapM_eq_none (List.forall_mem_map.mpr (List.forall_mem_cons.mpr ⟨ha, has⟩))
      rw [operand?_choice, hnone]
      rfl
    · rw [operand?_choice]
      exact Option.bind_fun_none _
    · obtain ⟨w, rfl, hw⟩ := hgs.single (by decide)
      rw [operand?_choice, hb _ hw]
      exact Option.bind_fun_none _
  arm c a hc ha v h := by
    cases h with
    | entries h =>
      obtain ⟨w, rfl, hw⟩ | ⟨w, rfl, hw⟩ := h.pair (by decide) (by decide)
      · rw [arm?_entries, hc _ _ hw]
        rfl
      · rw [arm?_entries, ha _ hw]
        exact Option.bind_fun_none _

end Document

theorem FieldTest.legible_of_finite {t : FieldTest} (h : ∀ x ∈ t.numbers, x.isFinite = true) :
    t.Legible := by
  have htarget (u : Target Double) (hu : ∀ x ∈ u.values, x.isFinite = true) :
      u.Legible Double.isFinite := by
    cases u with
    | equals x => exact hu x (List.mem_singleton_self x)
    | inRange b => trivial
  cases t with
  | numeric f u => exact htarget u h
  | price s u =>
    cases u with
    | none => trivial
    | some u => exact htarget u h
  | _ => trivial

theorem Node.Finite.legible {n : Node} (h : n.Finite) : n.Legible := by
  cases n with
  | criterion c =>
    cases c with
    | field t => exact FieldTest.legible_of_finite h
    | _ => trivial
  | operand a =>
    cases a with
    | literal x => exact h x (List.mem_singleton_self x)
    | _ => trivial

theorem Node.Finite.same_id {n : Node} (h : n.Finite) : n.Same FieldTest.withFiniteBounds id := by
  cases n with
  | criterion c =>
    cases c with
    | field t => exact FieldTest.withFiniteBounds_eq_self h
    | _ => trivial
  | operand a => trivial

namespace Criterion

theorem mapTests_withFiniteBounds {c : Criterion} (h : ∀ n ∈ c.nodes, n.node.Finite) :
    c.mapTests FieldTest.withFiniteBounds = c := by
  calc c.mapTests FieldTest.withFiniteBounds
    _ = c.mapTests id := mapTests_congr fun n hn => (h n hn).same_id
    _ = c := c.mapTests_id

theorem readsAs_document (c : Criterion) :
    Document.ReadsAs (Document.anyFault (ofDocument c.document)) (∀ n ∈ c.nodes, n.node.Legible)
      (c.mapTests FieldTest.withFiniteBounds) :=
  Document.documents_hereditary.ofCriterion c .root 1

theorem ofDocument_emptied {c : Criterion} {v : Value} (h : Document.Emptied c.document v) :
    ∃ f, ofDocument v = .error f :=
  Document.anyFault_eq_none.mp (Document.emptied_hereditary.ofCriterion c .root v h)

/-- The document of a tree whose numbers are all finite is read as the tree, and one with a list of
operands or of arms made empty is refused. Numbers that are not finite make the document refused if
one of them is an operand or the value of a target; else the tree is read without those bounds. -/
theorem ofDocument_document (c : Criterion) :
    ((∀ n ∈ c.nodes, n.node.Finite) → ofDocument c.document = .ok c) ∧
      (∀ v, Document.Emptied c.document v → ∃ f, ofDocument v = .error f) ∧
      ((∃ n ∈ c.nodes, ¬ n.node.Legible) → ∃ f, ofDocument c.document = .error f) ∧
      ((∀ n ∈ c.nodes, n.node.Legible) →
        ofDocument c.document = .ok (c.mapTests FieldTest.withFiniteBounds)) := by
  have hlegible (h : ∀ n ∈ c.nodes, n.node.Legible) :
      ofDocument c.document = .ok (c.mapTests FieldTest.withFiniteBounds) :=
    Document.anyFault_eq_some.mp ((c.readsAs_document.eq_some_iff _).mpr ⟨h, rfl⟩)
  refine ⟨fun h => ?_, fun v => ofDocument_emptied, fun ⟨n, hn, hlost⟩ => ?_, hlegible⟩
  · rw [hlegible fun n hn => (h n hn).legible, mapTests_withFiniteBounds h]
  · refine Document.anyFault_eq_none.mp (Option.eq_none_iff_forall_ne_some.mpr fun b hb => ?_)
    exact hlost (((c.readsAs_document.eq_some_iff b).mp hb).1 n hn)

/-- A bound that is not finite, in the condition of an arm. -/
def infinitelyBounded : Criterion :=
  .comparison .lessThan
    (.choice
      (.mk (.field (.numeric .volume (.inRange ⟨some .zero, some (.infinity false)⟩)))
        (.literal .zero)) []
      (.mk (.constant true) (.field .volume)))
    (.literal .zero)

theorem ofDocument_document_infinitelyBounded :
    ofDocument infinitelyBounded.document =
        .ok (infinitelyBounded.mapTests FieldTest.withFiniteBounds) ∧
      infinitelyBounded.mapTests FieldTest.withFiniteBounds = .comparison .lessThan
        (.choice
          (.mk (.field (.numeric .volume (.inRange ⟨some .zero, none⟩))) (.literal .zero)) []
          (.mk (.constant true) (.field .volume)))
        (.literal .zero) ∧
      ∃ v, Document.Emptied infinitelyBounded.document v ∧ ∃ f, ofDocument v = .error f := by
  obtain ⟨-, hemptied, -, hlegible⟩ := ofDocument_document infinitelyBounded
  have h : Document.Emptied infinitelyBounded.document _ :=
    .entries (.tail (.head (.entries (.tail (.list (by decide))))))
  exact ⟨hlegible (by decide), rfl, _, h, hemptied _ h⟩

end Criterion
end ScanCriteria
