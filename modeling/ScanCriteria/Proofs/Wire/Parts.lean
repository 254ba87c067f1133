import ScanCriteria.Proofs.Wire.Acceptance

/-!
# The parts of a tuple

The elements of a tuple that are parsed in turn are its parts. Which they are, and the kind that the
tuple gets after them, depends on the tag and the parameters alone; a tuple with a wrong tag or
number of parameters has a fault instead. `Part.parse_eq` brings every parse into this form: a tuple
is entered, its parts are parsed from left to right, and it is left.
-/
namespace ScanCriteria.Wire
open Json

/-- A value with what it is to be parsed as. -/
inductive Part where
  | criterion (v : Value)
  | operand (v : Value)

/-- What is parsed within a tuple, and the kind that the tuple then has. -/
structure Body where
  parts : List Part
  kind : Kind

def criterionBody (tag : String) (params : List Value) : Except Fault Body :=
  match CriterionTag.ofText? tag with
  | none => (fieldTest tag params).map fun t => ⟨[], t.kind⟩
  | some (.junction op) =>
    if params.isEmpty then fault .logicalBooleanMissingOperands tag
    else .ok ⟨params.map .criterion, op.kind⟩
  | some .not =>
    match params with
    | [] => fault .logicalBooleanMissingOperands tag
    | [v] => .ok ⟨[.criterion v], .not⟩
    | params => fault .logicalNotHasMoreThanOneOperand s!"{params.length} operands"
  | some (.comparison op) =>
    match params with
    | [a, b] => .ok ⟨[.operand a, .operand b], op.kind⟩
    | params => fault .numericComparisonDoesNotHave2Operands s!"{tag} has {params.length}"
  | some (.constant holds) =>
    if params.isEmpty then .ok ⟨[], (Criterion.constant holds).kind⟩
    else fault .constantBooleanHasParameters s!"{tag} has {params.length}"

def armParts : List Value → List Part
  | c :: v :: rest => .criterion c :: .operand v :: armParts rest
  | _ => []

def operandBody (tag : String) (params : List Value) : Except Fault Body :=
  match OperandTag.ofText? tag with
  | none => fault .unknownNumericTupleNodeType tag
  | some (.binary op) =>
    match params with
    | [a, b] => .ok ⟨[.operand a, .operand b], op.kind⟩
    | params => fault .binaryArithmeticDoesNotHave2Operands s!"{tag} has {params.length}"
  | some (.unary op) =>
    match params with
    | [a] => .ok ⟨[.operand a], op.kind⟩
    | params => fault .unaryArithmeticDoesNotHave1Operand s!"{tag} has {params.length}"
  | some .choice =>
    match choiceFault? params.length with
    | some f => .error f
    | none => .ok ⟨armParts params, .numericIf⟩

/-- What a part turns out to be. -/
inductive Form where
  /-- A literal or a field of a numeric expression. -/
  | scalar
  /-- No tuple, nor anything else that may stand there. -/
  | refused (f : Fault)
  | tuple (tag : String) (params : List Value) (body : Except Fault Body)

namespace Part

def value : Part → Value
  | criterion v | operand v => v

def form : Part → Form
  | criterion (.array (.string tag :: params)) => .tuple tag params (criterionBody tag params)
  | criterion (.array items) => .refused (missingTag items)
  | criterion v => .refused ⟨.booleanTupleNotAnArray, describe v⟩
  | operand (.number _) => .scalar
  | operand (.string tag) =>
    match Field.ofTagIn? .numeric tag with
    | some _ => .scalar
    | none => .refused ⟨.unknownNumericField, tag⟩
  | operand (.array (.string tag :: params)) => .tuple tag params (operandBody tag params)
  | operand (.array items) => .refused (missingTag items)
  | operand v => .refused ⟨.numericOperandTypeIsNotValid, describe v⟩

/-- The parse of a part, whatever comes of it. -/
def parse : Part → Parse Unit
  | criterion v => (fun _ => ()) <$> Wire.criterion v
  | operand v => (fun _ => ()) <$> Wire.operand v

end Part

/-- Parts are parsed from left to right. -/
def parseAll (xs : List Part) : Parse Unit := xs.forM Part.parse

theorem parseAll_nil : parseAll [] = pure () := rfl

theorem parseAll_cons (x : Part) (xs : List Part) :
    parseAll (x :: xs) = x.parse >>= fun _ => parseAll xs := rfl

theorem criteria_parts (vs : List Value) :
    (fun _ => ()) <$> criteria vs = parseAll (vs.map .criterion) := by
  induction vs with
  | nil => simp [criteria, parseAll_nil]
  | cons v vs ih =>
    rw [List.map_cons, parseAll_cons, ← ih, criteria]
    simp [Part.parse]

theorem arms_parts (vs : List Value) : (fun _ => ()) <$> arms vs = parseAll (armParts vs) := by
  induction vs using armParts.induct with
  | case1 c v rest ih =>
    rw [armParts, parseAll_cons, parseAll_cons, ← ih, arms]
    simp [Part.parse]
  | case2 vs h =>
    rw [armParts, arms, map_pure, parseAll_nil]
    · exact h
    · exact h

theorem criterionOf_body (tag : String) (params : List Value) :
    Criterion.kind <$> criterionOf tag params = do
      let body ← liftExcept (criterionBody tag params)
      parseAll body.parts
      return body.kind := by
  unfold criterionBody
  rw [criterionOf.eq_def]
  cases CriterionTag.ofText? tag with
  | none =>
    dsimp only
    cases fieldTest tag params with
    | error f => simp [Except.map, liftExcept]
    | ok t => simp [Except.map, liftExcept, parseAll_nil, Criterion.kind]
  | some t =>
    cases t with
    | junction op =>
      cases params with
      | nil => simp [criteria, liftExcept, fail, fault]
      | cons v vs =>
        simp [criteria, liftExcept, parseAll_cons, ← criteria_parts, Criterion.kind, Part.parse]
    | not =>
      rcases params with _ | ⟨v, _ | ⟨w, rest⟩⟩
      · simp [fault, fail, liftExcept]
      · simp [liftExcept, parseAll_cons, parseAll_nil, Part.parse, Criterion.kind]
      · simp [fault, fail, liftExcept]
    | comparison op =>
      rcases params with _ | ⟨v, _ | ⟨w, _ | ⟨x, rest⟩⟩⟩
      · simp [fault, fail, liftExcept]
      · simp [fault, fail, liftExcept]
      · simp [liftExcept, parseAll_cons, parseAll_nil, Part.parse, Criterion.kind]
      · simp [fault, fail, liftExcept]
    | constant holds =>
      cases params with
      | nil => simp [liftExcept, parseAll_nil]
      | cons v vs => simp [fault, fail, liftExcept]

theorem operandOf_body (tag : String) (params : List Value) :
    Prod.snd <$> operandOf tag params = do
      let body ← liftExcept (operandBody tag params)
      parseAll body.parts
      return body.kind := by
  unfold operandBody
  rw [operandOf.eq_def]
  cases OperandTag.ofText? tag with
  | none => simp [fault, fail, liftExcept]
  | some t =>
    cases t with
    | binary op =>
      rcases params with _ | ⟨v, _ | ⟨w, _ | ⟨x, rest⟩⟩⟩
      · simp [fault, fail, liftExcept]
      · simp [fault, fail, liftExcept]
      · simp [liftExcept, parseAll_cons, parseAll_nil, Part.parse]
      · simp [fault, fail, liftExcept]
    | unary op =>
      rcases params with _ | ⟨v, _ | ⟨w, rest⟩⟩
      · simp [fault, fail, liftExcept]
      · simp [liftExcept, parseAll_cons, parseAll_nil, Part.parse]
      · simp [fault, fail, liftExcept]
    | choice =>
      dsimp only
      cases hc : choiceFault? params.length with
      | some f => simp [liftExcept]
      | none =>
        obtain ⟨hl, -⟩ := choiceFault?_eq_none_iff.mp hc
        rcases params with _ | ⟨c, _ | ⟨v, _ | ⟨d, _ | ⟨w, rest⟩⟩⟩⟩
        · simp at hl
        · simp at hl
        · simp at hl
        · simp at hl
        · simp [liftExcept, arms, splitArms?, armParts, parseAll_cons, ← arms_parts, Part.parse]

/-- A tuple is entered, its parts are parsed, and it is left. -/
def Form.parse : Form → Parse Unit
  | .scalar => pure ()
  | .refused f => throw f
  | .tuple tag params body => do
    let index ← enterTuple tag (params.length + 1)
    let body ← liftExcept body
    parseAll body.parts
    leaveTuple index body.kind

theorem Part.parse_eq (x : Part) : x.parse = x.form.parse := by
  fun_cases Part.form x with
  | case1 tag params =>
    have hleave (index : Nat) :
        (criterionOf tag params >>= fun c => leaveTuple index c.kind) =
          (Criterion.kind <$> criterionOf tag params) >>= leaveTuple index := by simp
    simp [parse, Form.parse, Wire.criterion, hleave, criterionOf_body]
  | case2 items h =>
    rw [parse, Wire.criterion.eq_2 items h]
    rfl
  | case3 v ht ha =>
    rw [parse, Wire.criterion.eq_3 v ht ha]
    rfl
  | case4 n =>
    rw [parse, Wire.operand]
    rfl
  | case5 tag f hf =>
    rw [parse, Wire.operand, hf]
    rfl
  | case6 tag hf =>
    rw [parse, Wire.operand, hf]
    rfl
  | case7 tag params =>
    have hleave (index : Nat) :
        (operandOf tag params >>= fun r => leaveTuple index r.2) =
          (Prod.snd <$> operandOf tag params) >>= leaveTuple index := by simp
    simp [parse, Form.parse, Wire.operand, hleave, operandOf_body]
  | case8 items h =>
    rw [parse, Wire.operand.eq_4 items h]
    rfl
  | case9 v hn hs ht ha =>
    rw [parse, Wire.operand.eq_5 v hn hs ht ha]
    rfl

theorem armParts_values {vs : List Value} (h : vs.length % 2 = 0) :
    (armParts vs).map Part.value = vs := by
  induction vs using armParts.induct with
  | case1 c v rest ih =>
    have hrest : rest.length % 2 = 0 := by
      simp only [List.length_cons] at h
      omega
    rw [armParts, List.map_cons, List.map_cons, ih hrest]
    rfl
  | case2 vs hvs =>
    match vs with
    | [] => rfl
    | [v] => simp at h
    | c :: v :: rest => exact absurd rfl (hvs c v rest)

theorem criterionBody_values {tag : String} {params : List Value} {b : Body}
    (h : criterionBody tag params = .ok b) :
    b.parts.map Part.value = params ∨ b.parts = [] := by
  unfold criterionBody at h
  split at h
  · obtain ⟨t, -, rfl⟩ := map_eq_ok.mp h
    exact .inr rfl
  · split at h
    · exact absurd h (fault_ne_ok _ _ _)
    · cases h
      exact .inl (by simp [Part.value, Function.comp_def])
  · split at h <;> cases h
    exact .inl rfl
  · split at h <;> cases h
    exact .inl rfl
  · split at h <;> cases h
    exact .inr rfl

theorem operandBody_values {tag : String} {params : List Value} {b : Body}
    (h : operandBody tag params = .ok b) : b.parts.map Part.value = params := by
  unfold operandBody at h
  split at h
  · cases h
  · split at h <;> cases h
    rfl
  · split at h <;> cases h
    rfl
  · split at h <;> cases h
    next hc => exact armParts_values (choiceFault?_eq_none_iff.mp hc).2.1

theorem form_criterion {tag : String} {params : List Value} {body : Except Fault Body}
    (h : criterionBody tag params = body) :
    (Part.criterion (headed tag params)).form = .tuple tag params body := by
  rw [← h]
  rfl

theorem form_operand {tag : String} {params : List Value} {body : Except Fault Body}
    (h : operandBody tag params = body) :
    (Part.operand (headed tag params)).form = .tuple tag params body := by
  rw [← h]
  rfl

namespace Part

variable {x : Part} {tag : String} {params : List Value}

theorem form_eq_tuple_iff {body : Except Fault Body} :
    x.form = .tuple tag params body ↔
      x = .criterion (headed tag params) ∧ criterionBody tag params = body ∨
        x = .operand (headed tag params) ∧ operandBody tag params = body := by
  constructor
  · intro h
    unfold form at h
    split at h
    all_goals try (split at h)
    all_goals cases h
    · exact .inl ⟨rfl, rfl⟩
    · exact .inr ⟨rfl, rfl⟩
  · rintro (⟨rfl, rfl⟩ | ⟨rfl, rfl⟩) <;> rfl

theorem value_eq {body : Except Fault Body} (h : x.form = .tuple tag params body) :
    x.value = headed tag params := by
  obtain ⟨rfl, -⟩ | ⟨rfl, -⟩ := form_eq_tuple_iff.mp h <;> rfl

theorem parts_values {b : Body} (h : x.form = .tuple tag params (.ok b)) :
    b.parts.map value = params ∨ b.parts = [] := by
  obtain ⟨-, hb⟩ | ⟨-, hb⟩ := form_eq_tuple_iff.mp h
  · exact criterionBody_values hb
  · exact .inl (operandBody_values hb)

/-- Every part is one of the parameters. -/
theorem value_mem {b : Body} (h : x.form = .tuple tag params (.ok b)) {y : Part}
    (hy : y ∈ b.parts) : y.value ∈ params := by
  obtain hv | hv := parts_values h
  · exact hv ▸ List.mem_map_of_mem hy
  · simp [hv] at hy

/-- What holds of a part when it holds of the parts within it. -/
theorem induction {P : Part → Prop}
    (h : ∀ x, (∀ tag params b, x.form = .tuple tag params (.ok b) → ∀ y ∈ b.parts, P y) → P x)
    (x : Part) : P x := by
  apply h
  intro tag params b hx y hy
  have hlt : sizeOf y.value < sizeOf x.value := by
    have hmem := List.sizeOf_lt_of_mem (value_mem hx hy)
    rw [value_eq hx, headed, Value.array.sizeOf_spec, List.cons.sizeOf_spec]
    omega
  exact induction h y
termination_by sizeOf x.value

end Part

theorem criterionBody_field {f : Field} {params : List Value} {t : FieldTest}
    (h : TestDenotes f params t) : criterionBody f.tag params = .ok ⟨[], t.kind⟩ := by
  simp only [criterionBody, CriterionTag.ofText?_tag, fieldTest_eq_ok_iff.mpr ⟨f, rfl, h⟩,
    Except.map]

theorem criterionBody_constant (b : Bool) :
    criterionBody (CriterionTag.constant b).text [] = .ok ⟨[], (Criterion.constant b).kind⟩ := by
  rw [criterionBody, CriterionTag.ofText?_text]
  rfl

theorem criterionBody_not (v : Value) :
    criterionBody CriterionTag.not.text [v] = .ok ⟨[.criterion v], .not⟩ := by
  rw [criterionBody, CriterionTag.ofText?_text]

theorem criterionBody_junction (op : Connective) (v : Value) (vs : List Value) :
    criterionBody (CriterionTag.junction op).text (v :: vs) =
      .ok ⟨(v :: vs).map .criterion, op.kind⟩ := by
  simp only [criterionBody, CriterionTag.ofText?_text]
  rfl

theorem criterionBody_comparison (op : Comparison) (v w : Value) :
    criterionBody (CriterionTag.comparison op).text [v, w] =
      .ok ⟨[.operand v, .operand w], op.kind⟩ := by
  simp only [criterionBody, CriterionTag.ofText?_text]

theorem operandBody_binary (op : Binary) (v w : Value) :
    operandBody (OperandTag.binary op).text [v, w] =
      .ok ⟨[.operand v, .operand w], op.kind⟩ := by
  rw [operandBody, OperandTag.ofText?_text]

theorem operandBody_unary (op : Unary) (v : Value) :
    operandBody (OperandTag.unary op).text [v] = .ok ⟨[.operand v], op.kind⟩ := by
  rw [operandBody, OperandTag.ofText?_text]

theorem operandBody_choice (params : List Value) :
    operandBody OperandTag.choice.text params =
      match choiceFault? params.length with
      | some f => .error f
      | none => .ok ⟨armParts params, .numericIf⟩ := by
  simp only [operandBody, OperandTag.ofText?_text]

section Runs

variable {x : Part} {tag : String} {params : List Value} {body : Except Fault Body} {f : Fault}
  {p q : Progress}

theorem runs_criterion_part {v : Value} :
    Runs (Part.criterion v).parse p () q ↔ ∃ c, Runs (criterion v) p c q := by
  simp only [Part.parse, map_eq_pure_bind, runs_bind, runs_pure, exists_eq_right, true_and]

theorem runs_operand_part {v : Value} :
    Runs (Part.operand v).parse p () q ↔ ∃ a, Runs (operand v) p a q := by
  simp only [Part.parse, map_eq_pure_bind, runs_bind, runs_pure, exists_eq_right, true_and]

theorem fails_criterion_part {v : Value} :
    Fails (Part.criterion v).parse p f q ↔ Fails (criterion v) p f q := by
  simp only [Part.parse, map_eq_pure_bind, fails_bind, not_fails_pure, and_false, exists_false,
    or_false]

theorem fails_operand_part {v : Value} :
    Fails (Part.operand v).parse p f q ↔ Fails (operand v) p f q := by
  simp only [Part.parse, map_eq_pure_bind, fails_bind, not_fails_pure, and_false, exists_false,
    or_false]

theorem runs_scalar (h : x.form = .scalar) : Runs x.parse p () q ↔ p = q := by
  rw [x.parse_eq, h, Form.parse, runs_pure]
  exact and_iff_right rfl

theorem not_fails_scalar (h : x.form = .scalar) : ¬Fails x.parse p f q := by
  rw [x.parse_eq, h, Form.parse]
  exact not_fails_pure

theorem not_runs_refused {g : Fault} (h : x.form = .refused g) : ¬Runs x.parse p () q := by
  rw [x.parse_eq, h, Form.parse]
  exact not_runs_throw

theorem fails_refused {g : Fault} (h : x.form = .refused g) :
    Fails x.parse p f q ↔ g = f ∧ p = q := by
  rw [x.parse_eq, h, Form.parse, fails_throw]

theorem runs_tuple_part (h : x.form = .tuple tag params body) :
    Runs x.parse p () q ↔
      exceededLimit? tag (params.length + 1) (p.enter.add tag) = none ∧
        ∃ b r, body = .ok b ∧ Runs (parseAll b.parts) (p.enter.add tag) () r ∧
          r.exit ((p.enter.add tag).nodes.size - 1) b.kind = q := by
  rw [x.parse_eq, h, Form.parse]
  simp only [runs_bind, runs_enterTuple, runs_liftExcept, runs_leaveTuple]
  constructor
  · rintro ⟨_, _, ⟨hl, rfl, rfl⟩, b, _, ⟨hb, rfl⟩, _, r, hr, rfl⟩
    exact ⟨hl, b, r, hb, hr, rfl⟩
  · rintro ⟨hl, b, r, hb, hr, rfl⟩
    exact ⟨_, _, ⟨hl, rfl, rfl⟩, b, _, ⟨hb, rfl⟩, (), r, hr, rfl⟩

/-- A tuple fails by itself once it has been entered, or within one of its parts. -/
theorem fails_tuple_part (h : x.form = .tuple tag params body) :
    Fails x.parse p f q ↔
      exceededLimit? tag (params.length + 1) (p.enter.add tag) = some f ∧ p.enter.add tag = q ∨
        exceededLimit? tag (params.length + 1) (p.enter.add tag) = none ∧
          (body = .error f ∧ p.enter.add tag = q ∨
            ∃ b, body = .ok b ∧ Fails (parseAll b.parts) (p.enter.add tag) f q) := by
  rw [x.parse_eq, h, Form.parse]
  simp only [fails_bind, fails_enterTuple, runs_enterTuple, fails_liftExcept, runs_liftExcept,
    not_fails_leaveTuple, and_false, exists_false, or_false]
  apply or_congr_right
  constructor
  · rintro ⟨_, _, ⟨hl, rfl, rfl⟩, hf | ⟨b, _, ⟨hb, rfl⟩, hf⟩⟩
    · exact ⟨hl, .inl hf⟩
    · exact ⟨hl, .inr ⟨b, hb, hf⟩⟩
  · rintro ⟨hl, hf | ⟨b, hb, hf⟩⟩
    · exact ⟨_, _, ⟨hl, rfl, rfl⟩, .inl hf⟩
    · exact ⟨_, _, ⟨hl, rfl, rfl⟩, .inr ⟨b, _, ⟨hb, rfl⟩, hf⟩⟩

theorem runs_parseAll_nil : Runs (parseAll []) p () q ↔ p = q := by
  rw [parseAll_nil, runs_pure]
  exact and_iff_right rfl

theorem runs_parseAll_cons {xs : List Part} :
    Runs (parseAll (x :: xs)) p () q ↔ ∃ r, Runs x.parse p () r ∧ Runs (parseAll xs) r () q := by
  rw [parseAll_cons, runs_bind]
  exact ⟨fun ⟨_, h⟩ => h, fun h => ⟨(), h⟩⟩

theorem runs_parseAll_append {xs ys : List Part} :
    Runs (parseAll (xs ++ ys)) p () q ↔
      ∃ r, Runs (parseAll xs) p () r ∧ Runs (parseAll ys) r () q := by
  rw [parseAll, List.forM_eq_forM, List.forM_append, runs_bind]
  exact ⟨fun ⟨_, h⟩ => h, fun h => ⟨(), h⟩⟩

theorem not_fails_parseAll_nil : ¬Fails (parseAll []) p f q := not_fails_pure

/-- The first part that fails ends the parse. -/
theorem fails_parseAll_cons {xs : List Part} :
    Fails (parseAll (x :: xs)) p f q ↔
      Fails x.parse p f q ∨ ∃ r, Runs x.parse p () r ∧ Fails (parseAll xs) r f q := by
  rw [parseAll_cons, fails_bind]
  exact or_congr_right ⟨fun ⟨_, h⟩ => h, fun h => ⟨(), h⟩⟩

theorem fails_parseAll_append {xs ys : List Part} :
    Fails (parseAll (xs ++ ys)) p f q ↔
      Fails (parseAll xs) p f q ∨ ∃ r, Runs (parseAll xs) p () r ∧ Fails (parseAll ys) r f q := by
  rw [parseAll, List.forM_eq_forM, List.forM_append, fails_bind]
  exact or_congr_right ⟨fun ⟨_, h⟩ => h, fun h => ⟨(), h⟩⟩

/-- Before the part that fails all parts have been parsed. -/
theorem exists_of_fails_parseAll {xs : List Part} (h : Fails (parseAll xs) p f q) :
    ∃ ys x zs r, xs = ys ++ x :: zs ∧ Runs (parseAll ys) p () r ∧ Fails x.parse r f q := by
  induction xs generalizing p with
  | nil => exact absurd h not_fails_parseAll_nil
  | cons x xs ih =>
    obtain hf | ⟨r, hr, hf⟩ := fails_parseAll_cons.mp h
    · exact ⟨[], x, xs, p, rfl, runs_parseAll_nil.mpr rfl, hf⟩
    · obtain ⟨ys, y, zs, r', rfl, hys, hf⟩ := ih hf
      exact ⟨x :: ys, y, zs, r', rfl, runs_parseAll_cons.mpr ⟨r, hr, hys⟩, hf⟩

end Runs

/-- A relation of the progress before to the progress after. It holds when nothing is done, of one
thing after the other, and of a tuple if of what is within it. -/
structure Kept (R : Progress → Progress → Prop) : Prop where
  refl : ∀ p, R p p
  trans : ∀ {p q r}, R p q → R q r → R p r
  tuple : ∀ {x : Part} {tag : String} {params : List Value} {b : Body} {p q : Progress},
    x.form = .tuple tag params (.ok b) → R (p.enter.add tag) q →
      R p (q.exit ((p.enter.add tag).nodes.size - 1) b.kind)

namespace Kept

variable {R : Progress → Progress → Prop}

theorem all_of_each (h : Kept R) {xs : List Part} {p q : Progress}
    (hx : ∀ x ∈ xs, ∀ p q, Runs x.parse p () q → R p q) (hxs : Runs (parseAll xs) p () q) :
    R p q := by
  induction xs generalizing p with
  | nil =>
    obtain rfl := runs_parseAll_nil.mp hxs
    exact h.refl p
  | cons x xs ih =>
    obtain ⟨r, hr, hq⟩ := runs_parseAll_cons.mp hxs
    obtain ⟨hx, hxs⟩ := List.forall_mem_cons.mp hx
    exact h.trans (hx p r hr) (ih hxs hq)

/-- It holds of every part that is parsed. -/
theorem runs (h : Kept R) (x : Part) : ∀ p q, Runs x.parse p () q → R p q := by
  induction x using Part.induction with
  | h x ih =>
    intro p q hrun
    cases hx : x.form with
    | scalar =>
      obtain rfl := (runs_scalar hx).mp hrun
      exact h.refl p
    | refused f => exact absurd hrun (not_runs_refused hx)
    | tuple tag params body =>
      obtain ⟨-, b, r, rfl, hr, rfl⟩ := (runs_tuple_part hx).mp hrun
      exact h.tuple hx (h.all_of_each (ih tag params b hx) hr)

theorem runs_all (h : Kept R) {xs : List Part} {p q : Progress}
    (hxs : Runs (parseAll xs) p () q) : R p q := h.all_of_each (fun x _ => h.runs x) hxs

end Kept

theorem runs_of_parse {v : Value} {p : Parsed} (h : parse v = .ok p) :
    Runs (Part.criterion v).parse .start () p.progress :=
  runs_criterion_part.mpr ⟨p.criterion, parse_eq_ok.mp h⟩

theorem parse_eq_error {v : Value} {f : Failure} :
    parse v = .error f ↔ Fails (Part.criterion v).parse .start f.fault f.progress := by
  have hparse : parse v = match outcome (criterion v) .start with
      | (.ok c, p) => .ok ⟨c, p⟩
      | (.error f, p) => .error ⟨f, p⟩ := rfl
  obtain ⟨g, q⟩ := f
  rw [hparse, fails_criterion_part, Fails]
  rcases outcome (criterion v) .start with ⟨e | c, p⟩ <;> simp

end ScanCriteria.Wire
