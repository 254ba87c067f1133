import ScanCriteria.Proofs.Wire.Parts

/-!
# Entries that do not matter

An entry of an object matters only if it is under a key of named parameters and is not `null`.
`strip` drops the others from all objects within a value, wherever these stand. A parse does not
look at them: of the stripped value it comes to the same criterion or to a fault of the same cause,
and with the same progress. The context of the fault may be another one, as it quotes values.
-/
namespace ScanCriteria.Wire
open Json

def parameterKeys : List String := [atKey, minKey, maxKey, asKey, ignoreCaseKey]

mutual

def strip : Value → Value
  | .array items => .array (stripAll items)
  | .object es => .object (stripEntries es)
  | v => v

def stripAll : List Value → List Value
  | [] => []
  | v :: vs => strip v :: stripAll vs

def stripEntries : List (String × Value) → List (String × Value)
  | [] => []
  | (key, v) :: es =>
    if key ∈ parameterKeys ∧ v.isNull = false then (key, strip v) :: stripEntries es
    else stripEntries es

end

theorem length_stripAll (vs : List Value) : (stripAll vs).length = vs.length := by
  induction vs with
  | nil => rfl
  | cons v vs ih => rw [stripAll, List.length_cons, List.length_cons, ih]

theorem isNull_strip (v : Value) : (strip v).isNull = v.isNull := by cases v <;> rfl

/-- What is found under a key of named parameters is still there. -/
theorem find?_stripEntries {key : String} (hk : key ∈ parameterKeys) (es : Entries Value) :
    Named.find? key (stripEntries es) = (Named.find? key es).map strip := by
  induction es with
  | nil => rfl
  | cons e es ih =>
    obtain ⟨k, v⟩ := e
    by_cases hkv : k = key ∧ v.isNull = false
    · obtain ⟨rfl, hv⟩ := hkv
      have hv' := (isNull_strip v).trans hv
      rw [stripEntries, if_pos ⟨hk, hv⟩, Named.find?, if_pos ⟨rfl, hv'⟩, Named.find?,
        if_pos ⟨rfl, hv⟩]
      rfl
    · have hkv' : ¬(k = key ∧ (strip v).isNull = false) := by rwa [isNull_strip]
      rw [stripEntries, Named.find?, if_neg hkv]
      split
      · rw [Named.find?, if_neg hkv', ih]
      · exact ih

variable {α β : Type}

/-- The same value, or faults of one cause. -/
def SameCause (x y : Except Fault α) : Prop := x.mapError Fault.cause = y.mapError Fault.cause

namespace SameCause

variable {x y : Except Fault α}

theorem refl (x : Except Fault α) : SameCause x x := rfl

theorem fault (cause : Cause) (c d : String) :
    SameCause (Wire.fault cause c : Except Fault α) (Wire.fault cause d) := by
  rw [SameCause, Wire.fault, Wire.fault, Except.mapError, Except.mapError]

theorem tooMany (tag : String) (m n : Nat) :
    SameCause (tooManyParameters tag m : Except Fault α) (tooManyParameters tag n) :=
  .fault _ _ _

theorem map (h : SameCause x y) (g : α → β) : SameCause (x.map g) (y.map g) := by
  cases x <;> cases y <;> simp_all [SameCause, Except.mapError, Except.map]

theorem bind {g k : α → Except Fault β} (h : SameCause x y) (hg : ∀ a, SameCause (g a) (k a)) :
    SameCause (x >>= g) (y >>= k) := by
  cases x with
  | error e =>
    cases y with
    | error f => simp_all [SameCause, Except.mapError, Bind.bind, Except.bind]
    | ok b => cases h
  | ok a =>
    cases y with
    | error f => cases h
    | ok b =>
      cases h
      exact hg a

theorem mapError_eq_ok {a : α} : x.mapError Fault.cause = .ok a ↔ x = .ok a := by
  cases x <;> simp [Except.mapError]

theorem mapError_eq_error {cause : Cause} :
    x.mapError Fault.cause = .error cause ↔ ∃ context, x = .error ⟨cause, context⟩ := by
  cases x with
  | error e =>
    obtain ⟨c, d⟩ := e
    simp [Except.mapError]
  | ok a => simp [Except.mapError]

theorem eq_ok_iff (h : SameCause x y) {a : α} : x = .ok a ↔ y = .ok a := by
  rw [← mapError_eq_ok, h, mapError_eq_ok]

theorem eq_error_iff (h : SameCause x y) {cause : Cause} :
    (∃ context, x = .error ⟨cause, context⟩) ↔ ∃ context, y = .error ⟨cause, context⟩ := by
  rw [← mapError_eq_error, h, mapError_eq_error]

end SameCause

/-- A reader that does not look at what is stripped. -/
def Unheeding (read : String → Value → Except Fault α) : Prop :=
  ∀ tag v, SameCause (read tag (strip v)) (read tag v)

/-- A reader of single values: structures are refused, all of them for one cause. -/
structure RefusesStructures (read : String → Value → Except Fault α) (cause : Cause) : Prop where
  array (tag : String) (items : List Value) : ∃ c, read tag (.array items) = fault cause c
  object (tag : String) (es : Entries Value) : ∃ c, read tag (.object es) = fault cause c

theorem RefusesStructures.unheeding {read : String → Value → Except Fault α} {cause : Cause}
    (h : RefusesStructures read cause) : Unheeding read := by
  intro tag v
  cases v with
  | array items =>
    obtain ⟨c, hc⟩ := h.array tag items
    obtain ⟨d, hd⟩ := h.array tag (stripAll items)
    rw [strip, hc, hd]
    exact .fault cause d c
  | object es =>
    obtain ⟨c, hc⟩ := h.object tag es
    obtain ⟨d, hd⟩ := h.object tag (stripEntries es)
    rw [strip, hc, hd]
    exact .fault cause d c
  | _ => exact .refl _

theorem unheeding_number : Unheeding Literal.number :=
  RefusesStructures.unheeding ⟨fun _ _ => ⟨_, rfl⟩, fun _ _ => ⟨_, rfl⟩⟩

theorem unheeding_moment : Unheeding Literal.moment :=
  RefusesStructures.unheeding ⟨fun _ _ => ⟨_, rfl⟩, fun _ _ => ⟨_, rfl⟩⟩

theorem unheeding_text : Unheeding Literal.text :=
  RefusesStructures.unheeding ⟨fun _ _ => ⟨_, rfl⟩, fun _ _ => ⟨_, rfl⟩⟩

theorem unheeding_boolean : Unheeding Literal.boolean :=
  RefusesStructures.unheeding ⟨fun _ _ => ⟨_, rfl⟩, fun _ _ => ⟨_, rfl⟩⟩

theorem unheeding_anchor : Unheeding Literal.anchor :=
  RefusesStructures.unheeding ⟨fun _ _ => ⟨_, rfl⟩, fun _ _ => ⟨_, rfl⟩⟩

theorem unheeding_ignoreCase : Unheeding Literal.ignoreCase :=
  RefusesStructures.unheeding ⟨fun _ _ => ⟨_, rfl⟩, fun _ _ => ⟨_, rfl⟩⟩

theorem unheeding_subField (ofText? : String → Option α) (unknown : Cause) :
    Unheeding (subField ofText? unknown) :=
  RefusesStructures.unheeding ⟨fun _ _ => ⟨_, rfl⟩, fun _ _ => ⟨_, rfl⟩⟩

/-- What is read from an object alone may be read from the stripped one. -/
theorem object_strip {read : Entries Value → Except Fault α}
    (h : ∀ es, SameCause (read (stripEntries es)) (read es)) (tag : String) (v : Value) :
    SameCause (Named.object tag (strip v) >>= read) (Named.object tag v >>= read) := by
  cases v with
  | object es => exact h es
  | array items => exact .fault .namedParametersIsNotObject _ _
  | _ => exact .refl _

section Readers

variable {read : String → Value → Except Fault α} (h : Unheeding read)
include h

theorem optional_strip (tag : String) (o : Option Value) :
    SameCause (Named.optional (read tag) (o.map strip)) (Named.optional (read tag) o) := by
  cases o with
  | none => exact .refl _
  | some v => exact (h tag v).map some

theorem target_strip (tag : String) (es : Entries Value) :
    SameCause (Named.target read tag (stripEntries es)) (Named.target read tag es) := by
  have hrange (min max : Option Value) :
      SameCause
        (do
          let min ← Named.optional (read tag) (min.map strip)
          let max ← Named.optional (read tag) (max.map strip)
          return Target.inRange ⟨min, max⟩)
        (do
          let min ← Named.optional (read tag) min
          let max ← Named.optional (read tag) max
          return Target.inRange ⟨min, max⟩) :=
    (optional_strip h tag min).bind fun _ => (optional_strip h tag max).bind fun _ => .refl _
  rw [Named.target, Named.target, find?_stripEntries (by decide), find?_stripEntries (by decide),
    find?_stripEntries (by decide)]
  -- a value alone, three sorts of bounds, and else the same fault on both sides
  rcases Named.find? atKey es with _ | v <;> rcases Named.find? minKey es with _ | min <;>
    rcases Named.find? maxKey es with _ | max
  · exact .refl _
  · exact hrange none (some max)
  · exact hrange (some min) none
  · exact hrange (some min) (some max)
  · exact (h tag v).map _
  · exact .refl _
  · exact .refl _
  · exact .refl _

theorem unheeding_targetOf : Unheeding (Named.targetOf read) :=
  fun tag v => object_strip (target_strip h tag) tag v

theorem positionalBound_strip (tag : String) (v : Value) :
    SameCause (positionalBound (read tag) (strip v)) (positionalBound (read tag) v) := by
  have hif : (if (strip v).isNull then none else some (strip v)) =
      (if v.isNull then none else some v).map strip := by
    rw [isNull_strip]
    split <;> rfl
  rw [positionalBound, hif]
  exact optional_strip h tag _

theorem positionalRange_strip (tag : String) (min max : Value) :
    SameCause (positionalRange read tag (strip min) (strip max))
      (positionalRange read tag min max) := by
  rw [positionalRange, positionalRange, isNull_strip, isNull_strip]
  split
  · exact .refl _
  · exact (positionalBound_strip h tag min).bind fun _ =>
      (positionalBound_strip h tag max).bind fun _ => .refl _

end Readers

theorem unheeding_textOptions : Unheeding Named.textOptions := by
  intro tag v
  apply object_strip
  intro es
  rw [find?_stripEntries (by decide), find?_stripEntries (by decide)]
  exact (optional_strip unheeding_anchor tag _).bind fun _ =>
    (optional_strip unheeding_ignoreCase tag _).bind fun _ => .refl _

theorem textMatch_strip (tag : String) (n : Nat) (params : List Value) :
    SameCause (textMatch tag n (stripAll params)) (textMatch tag n params) := by
  rcases params with _ | ⟨v, _ | ⟨w, _ | ⟨x, _ | ⟨y, rest⟩⟩⟩⟩
  · exact .refl _
  · exact (unheeding_text tag v).bind fun _ => .refl _
  · exact (unheeding_textOptions tag w).bind fun _ => (unheeding_text tag v).bind fun _ => .refl _
  · exact (unheeding_text tag v).bind fun _ => (unheeding_anchor tag w).bind fun _ =>
      (unheeding_ignoreCase tag x).bind fun _ => .refl _
  · exact .refl _

theorem unheeding_priceTarget : Unheeding SubbedField.priceTarget := by
  intro tag v
  cases v with
  | number n => exact .refl _
  | _ => exact unheeding_targetOf unheeding_number tag _

theorem unheeding_dateTarget : Unheeding SubbedField.dateTarget := by
  intro tag v
  cases v with
  | string s => exact .refl _
  | _ => exact unheeding_targetOf unheeding_moment tag _

/-- Whether the tuple is read from all its parameters or from the stripped ones, the result is the
same but for contexts. -/
def UnheedingAll (read : String → List Value → Except Fault FieldTest) : Prop :=
  ∀ tag params, SameCause (read tag (stripAll params)) (read tag params)

section Fields

variable (f : Field)

theorem unheeding_boolean_field : UnheedingAll (PlainField.boolean f) := by
  intro tag params
  rcases params with _ | ⟨v, _ | ⟨w, rest⟩⟩
  · exact .refl _
  · cases v with
    | object es =>
      exact (unheeding_targetOf unheeding_boolean tag (.object es)).bind fun _ => .refl _
    | array items => exact (unheeding_boolean tag (.array items)).map (.boolean f)
    | _ => exact .refl _
  · cases v <;> exact .tooMany tag _ _

theorem unheeding_numeric_field : UnheedingAll (PlainField.numeric f) := by
  intro tag params
  rcases params with _ | ⟨v, _ | ⟨w, _ | ⟨x, rest⟩⟩⟩
  · exact .refl _
  · simp only [stripAll, numeric_single]
    exact (unheeding_priceTarget tag v).map _
  · simp only [stripAll, numeric_pair]
    exact (positionalRange_strip unheeding_number tag v w).map _
  · cases v <;> exact .tooMany tag _ _

theorem unheeding_date_field : UnheedingAll (PlainField.date f) := by
  intro tag params
  rcases params with _ | ⟨v, _ | ⟨w, _ | ⟨x, rest⟩⟩⟩
  · exact .refl _
  · simp only [stripAll, date_single]
    exact (unheeding_dateTarget tag v).map _
  · simp only [stripAll, date_pair]
    exact (positionalRange_strip unheeding_moment tag v w).map _
  · cases v <;> exact .tooMany tag _ _

theorem unheeding_text_field : UnheedingAll (PlainField.text f) := by
  intro tag params
  cases params with
  | nil => exact .refl _
  | cons v rest =>
    have hl := length_stripAll (v :: rest)
    simp only [stripAll, PlainField.text] at hl ⊢
    rw [hl]
    exact (textMatch_strip tag _ (v :: rest)).map _

end Fields

theorem unheeding_priceSub : Unheeding SubbedField.priceSub := unheeding_subField _ _

theorem unheeding_dateSub : Unheeding SubbedField.dateSub := unheeding_subField _ _

theorem unheeding_price : UnheedingAll SubbedField.price := by
  intro tag params
  rcases params with _ | ⟨v, _ | ⟨w, _ | ⟨x, _ | ⟨y, rest⟩⟩⟩⟩
  · exact .refl _
  · cases v with
    | object es => exact (unheeding_priceTarget tag (.object es)).map _
    | array items =>
      exact (unheeding_priceTarget tag (.array items)).map fun t => .price .last (some t)
    | _ => exact .refl _
  · simp only [stripAll, SubbedField.price]
    exact (unheeding_priceSub tag v).bind fun _ => (unheeding_priceTarget tag w).bind fun _ =>
      .refl _
  · simp only [stripAll, SubbedField.price]
    exact (unheeding_priceSub tag v).bind fun _ =>
      (positionalRange_strip unheeding_number tag w x).bind fun _ => .refl _
  · cases v <;> exact .tooMany tag _ _

theorem unheeding_dated : UnheedingAll SubbedField.dated := by
  intro tag params
  rcases params with _ | ⟨v, _ | ⟨w, _ | ⟨x, _ | ⟨y, rest⟩⟩⟩⟩
  · exact .refl _
  · cases v with
    | object es => exact (unheeding_dateTarget tag (.object es)).map _
    | array items =>
      exact (unheeding_dateTarget tag (.array items)).map fun t => .dated .dividend (some t)
    | _ => exact .refl _
  · exact (unheeding_dateSub tag v).bind fun _ => (unheeding_dateTarget tag w).bind fun _ =>
      .refl _
  · exact (unheeding_dateSub tag v).bind fun _ =>
      (positionalRange_strip unheeding_moment tag w x).bind fun _ => .refl _
  · exact .refl _

theorem unheeding_named {ofText? : String → Option α} {unknown : Cause}
    {test : α → Option TextMatch → FieldTest} :
    UnheedingAll (SubbedField.named ofText? unknown test) := by
  intro tag params
  rcases params with _ | ⟨sub, _ | ⟨v, rest⟩⟩
  · exact .refl _
  · exact (unheeding_subField _ _ tag sub).bind fun _ => .refl _
  · have hl : (strip v :: stripAll rest).length = (v :: rest).length := length_stripAll (v :: rest)
    simp only [stripAll, SubbedField.named, hl]
    exact (unheeding_subField _ _ tag sub).bind fun _ =>
      (textMatch_strip tag _ (v :: rest)).bind fun _ => .refl _

theorem unheeding_plainField (f : Field) : UnheedingAll (plainField f) := by
  intro tag params
  unfold plainField
  split
  · exact unheeding_boolean_field f tag params
  · exact unheeding_numeric_field f tag params
  · exact unheeding_date_field f tag params
  · exact unheeding_text_field f tag params

theorem unheeding_fieldTest : UnheedingAll fieldTest := by
  intro tag params
  unfold fieldTest
  split
  · exact .refl _
  · exact unheeding_price tag params
  · exact unheeding_dated tag params
  · exact unheeding_named tag params
  · exact unheeding_named tag params
  · exact unheeding_plainField _ tag params

/-- From the same progress the parses come to the same value or to faults of one cause, and leave
the same progress. -/
def Alike (x y : Parse α) : Prop :=
  ∀ p, SameCause (outcome x p).1 (outcome y p).1 ∧ (outcome x p).2 = (outcome y p).2

namespace Alike

theorem refl (x : Parse α) : Alike x x := fun _ => ⟨.refl _, rfl⟩

theorem throw {e f : Fault} (h : e.cause = f.cause) : Alike (throw e : Parse α) (throw f) :=
  fun _ => ⟨congrArg Except.error h, rfl⟩

theorem liftExcept {x y : Except Fault α} (h : SameCause x y) :
    Alike (liftExcept x) (liftExcept y) := by
  intro p
  rw [outcome_liftExcept, outcome_liftExcept]
  exact ⟨h, rfl⟩

theorem bind {x y : Parse α} {g k : α → Parse β} (h : Alike x y) (hg : ∀ a, Alike (g a) (k a)) :
    Alike (x >>= g) (y >>= k) := by
  intro p
  obtain ⟨hv, hp⟩ := h p
  rw [outcome_bind, outcome_bind]
  generalize outcome x p = xp at hv hp
  generalize outcome y p = yp at hv hp
  rcases xp with ⟨e | a, q⟩ <;> rcases yp with ⟨f | b, r⟩
  · exact ⟨congrArg Except.error (Except.error.inj hv), hp⟩
  · cases hv
  · cases hv
  · cases hv
    cases hp
    exact hg a q

variable {x y : Parse α} {p q : Progress}

theorem runs_iff (h : Alike x y) {a : α} : Runs x p a q ↔ Runs y p a q := by
  obtain ⟨hv, hp⟩ := h p
  rw [Runs, Runs, Prod.ext_iff, Prod.ext_iff, hv.eq_ok_iff, hp]

theorem fails_iff (h : Alike x y) {cause : Cause} :
    (∃ context, Fails x p ⟨cause, context⟩ q) ↔ ∃ context, Fails y p ⟨cause, context⟩ q := by
  obtain ⟨hv, hp⟩ := h p
  simp only [Fails, Prod.ext_iff, exists_and_right, hv.eq_error_iff, hp]

end Alike

/-- A value is parsed as the stripped one is, as a criterion and as an operand. -/
structure Insensitive (v : Value) : Prop where
  criterion : Alike (criterion (strip v)) (criterion v)
  operand : Alike (operand (strip v)) (operand v)

section Params

variable {tag : String} {params : List Value} (h : ∀ v ∈ params, Insensitive v)
include h

theorem criteria_alike : Alike (criteria (stripAll params)) (criteria params) := by
  induction params with
  | nil => exact .refl _
  | cons v vs ih =>
    obtain ⟨hv, hvs⟩ := List.forall_mem_cons.mp h
    rw [stripAll, criteria, criteria]
    exact hv.criterion.bind fun c => (ih hvs).bind fun cs => .refl _

theorem arms_alike : Alike (arms (stripAll params)) (arms params) := by
  induction params using armParts.induct with
  | case1 c v rest ih =>
    obtain ⟨hc, hv, hrest⟩ := by simpa only [List.forall_mem_cons] using h
    rw [stripAll, stripAll, arms, arms]
    exact hc.criterion.bind fun c => hv.operand.bind fun a => (ih hrest).bind fun as => .refl _
  | case2 vs hvs =>
    rcases vs with _ | ⟨c, _ | ⟨v, rest⟩⟩
    · exact .refl _
    · simp only [stripAll, arms]
      exact .refl _
    · exact absurd rfl (hvs c v rest)

theorem criterionOf_alike : Alike (criterionOf tag (stripAll params)) (criterionOf tag params) := by
  rw [criterionOf.eq_def, criterionOf.eq_def]
  split
  · exact .liftExcept ((unheeding_fieldTest tag params).map _)
  · refine (criteria_alike h).bind fun cs => .refl _
  · rcases params with _ | ⟨v, _ | ⟨w, rest⟩⟩
    · exact .refl _
    · exact (h v (List.mem_singleton_self v)).criterion.bind fun c => .refl _
    · exact .throw rfl
  · rcases params with _ | ⟨v, _ | ⟨w, _ | ⟨x, rest⟩⟩⟩
    · exact .refl _
    · exact .throw rfl
    · obtain ⟨hv, hw⟩ := List.forall_mem_cons.mp h
      exact hv.operand.bind fun a => (List.forall_mem_singleton.mp hw).operand.bind fun b => .refl _
    · exact .throw rfl
  · cases params with
    | nil => exact .refl _
    | cons v rest => exact .throw rfl

theorem operandOf_alike : Alike (operandOf tag (stripAll params)) (operandOf tag params) := by
  rw [operandOf.eq_def, operandOf.eq_def]
  split
  · exact .refl _
  · rcases params with _ | ⟨v, _ | ⟨w, _ | ⟨x, rest⟩⟩⟩
    · exact .refl _
    · exact .throw rfl
    · obtain ⟨hv, hw⟩ := List.forall_mem_cons.mp h
      exact hv.operand.bind fun a => (List.forall_mem_singleton.mp hw).operand.bind fun b => .refl _
    · exact .throw rfl
  · rcases params with _ | ⟨v, _ | ⟨w, rest⟩⟩
    · exact .refl _
    · exact (h v (List.mem_singleton_self v)).operand.bind fun a => .refl _
    · exact .throw rfl
  · rw [length_stripAll]
    split
    · exact .refl _
    · exact (arms_alike h).bind fun as => .refl _

end Params

theorem strip_headed (tag : String) (params : List Value) :
    strip (headed tag params) = headed tag (stripAll params) := rfl

theorem insensitive_tuple {tag : String} {params : List Value} (h : ∀ v ∈ params, Insensitive v) :
    Insensitive (headed tag params) where
  criterion := by
    rw [strip_headed, headed, headed, criterion, criterion, length_stripAll]
    exact (Alike.refl _).bind fun index => (criterionOf_alike h).bind fun c => .refl _
  operand := by
    rw [strip_headed, headed, headed, operand, operand, length_stripAll]
    exact (Alike.refl _).bind fun index => (operandOf_alike h).bind fun r => .refl _

theorem insensitive_untagged {items : List Value}
    (h : ∀ tag params, items ≠ .string tag :: params) : Insensitive (.array items) := by
  have hs (tag : String) (params : List Value) : stripAll items ≠ .string tag :: params := by
    rcases items with _ | ⟨v, rest⟩
    · simp [stripAll]
    · cases v with
      | string s => exact absurd rfl (h s rest)
      | _ => simp [stripAll, strip]
  have hcause : (missingTag (stripAll items)).cause = (missingTag items).cause := by
    cases items <;> rfl
  constructor
  · rw [strip, criterion.eq_2 items h, criterion.eq_2 _ hs]
    exact .throw hcause
  · rw [strip, operand.eq_4 items h, operand.eq_4 _ hs]
    exact .throw hcause

theorem insensitive_array {items : List Value} (h : ∀ v ∈ items, Insensitive v) :
    Insensitive (.array items) := by
  by_cases ht : ∃ tag params, items = .string tag :: params
  · obtain ⟨tag, params, rfl⟩ := ht
    exact insensitive_tuple (List.forall_mem_cons.mp h).2
  · exact insensitive_untagged fun tag params hi => ht ⟨tag, params, hi⟩

theorem insensitive_scalar {v : Value} (h : strip v = v) : Insensitive v where
  criterion := by
    rw [h]
    exact .refl _
  operand := by
    rw [h]
    exact .refl _

theorem insensitive_object (es : Entries Value) : Insensitive (.object es) := by
  have hcriterion (es : Entries Value) : criterion (.object es) =
      fail .booleanTupleNotAnArray (describe (.object es)) := by
    rw [criterion.eq_3 (.object es)] <;> simp
  have hoperand (es : Entries Value) : operand (.object es) =
      fail .numericOperandTypeIsNotValid (describe (.object es)) := by
    rw [operand.eq_5 (.object es)] <;> simp
  constructor
  · rw [strip, hcriterion, hcriterion]
    exact .throw rfl
  · rw [strip, hoperand, hoperand]
    exact .throw rfl

mutual

theorem insensitive : ∀ v, Insensitive v
  | .array items => insensitive_array (insensitive_all items)
  | .object es => insensitive_object es
  | .null => insensitive_scalar rfl
  | .bool _ => insensitive_scalar rfl
  | .number _ => insensitive_scalar rfl
  | .string _ => insensitive_scalar rfl

theorem insensitive_all : ∀ vs : List Value, ∀ v ∈ vs, Insensitive v
  | [] => nofun
  | v :: vs => List.forall_mem_cons.mpr ⟨insensitive v, insensitive_all vs⟩

end

/-- The stripped value is parsed to the same criterion with the same progress, or fails as the value
does, with the same cause and the same progress. -/
theorem parse_strip (v : Value) :
    (∀ r, parse (strip v) = .ok r ↔ parse v = .ok r) ∧
      ∀ cause progress,
        (∃ context, parse (strip v) = .error ⟨⟨cause, context⟩, progress⟩) ↔
          ∃ context, parse v = .error ⟨⟨cause, context⟩, progress⟩ := by
  have h := (insensitive v).criterion
  constructor
  · intro r
    exact parse_eq_ok.trans (h.runs_iff.trans parse_eq_ok.symm)
  · intro cause progress
    simp only [parse_eq_error, fails_criterion_part]
    exact h.fails_iff

end ScanCriteria.Wire
