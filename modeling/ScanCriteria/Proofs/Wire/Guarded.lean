import ScanCriteria.Proofs.Wire.OpenTuples

/-!
# Guarded parses

Parsing takes some steps that only a check made elsewhere keeps from going wrong: elements of a
tuple are taken by index, lengths are decreased, a lookup is presumed to have met its list, a tuple
is counted, and is left by way of its log entry. `Guarded.criterion` takes these steps one at a time
and breaks off, with a breach, where one of them goes wrong. It does so only if the counts have come
to their end before the first tuple is entered: from all other progress it comes to what `criterion`
comes to.
-/
namespace ScanCriteria.Wire
open Json

/-- What must not happen in a parse, whatever the value. -/
inductive Breach where
  /-- A tuple is counted, among the open ones or among all, beyond the greatest count. -/
  | overflow
  /-- An element is taken, or a slice begun, behind the end of a tuple. -/
  | outOfBounds (index length : Nat)
  /-- A length is decreased below zero. -/
  | underflow (n m : Nat)
  /-- A field that has no sub-fields is read as one that has. -/
  | notSubbed (f : Field)
  /-- The arms of a choice that has passed the check of its length do not split. -/
  | armsMissing
  /-- A tuple is left that the log does not have. -/
  | unlogged (index : Nat)
  /-- A tuple is left while none is open. -/
  | noneOpen
  deriving DecidableEq, Repr

/-- A step of a parse that may also break off. -/
abbrev Guarded (α : Type) := ExceptT Fault (StateT Progress (Except Breach)) α

namespace Guarded

variable {α β : Type}

def breach (b : Breach) : Guarded α := fun _ => .error b

def minus (n m : Nat) : Guarded Nat := if m ≤ n then return n - m else breach (.underflow n m)

/-- The element at an index, which is smaller than the tuple. -/
def elementAt (tuple : List Value) (i : Nat) : Guarded { v : Value // sizeOf v < sizeOf tuple } :=
  if h : i < tuple.length then return ⟨tuple[i], List.sizeOf_lt_of_mem (List.getElem_mem h)⟩
  else breach (.outOfBounds i tuple.length)

/-- The slice behind the tag. -/
def parameters : (tuple : List Value) → Guarded { vs : List Value // sizeOf vs < sizeOf tuple }
  | [] => breach (.outOfBounds 1 0)
  | tag :: vs => return ⟨vs, by simp⟩

def tagOf : List Value → Guarded String
  | .string tag :: _ => return tag
  | tuple => throw (missingTag tuple)

/-- The progress with one more tuple counted. -/
def counted : Guarded Progress := do
  match (← get).enter? with
  | some p => return p
  | none => breach .overflow

def enter (tag : String) (length : Nat) : Guarded Nat := do
  let p ← counted
  set (p.add tag)
  let index ← minus (p.add tag).nodes.size 1
  match exceededLimit? tag length (p.add tag) with
  | some f => throw f
  | none => return index

def leave (index : Nat) (k : Kind) : Guarded Unit := do
  let p ← get
  if p.nodes.size ≤ index then breach (.unlogged index)
  else if p.depth = 0 then breach .noneOpen
  else set (p.exit index k)

/-- The first field of a list that a tag spells. -/
def listed? (fields : List Field) (tag : String) : Option Field := fields.find? (·.tag == tag)

/-- The lists of plain fields in turn. -/
def plain? (tag : String) : Option Field :=
  listed? Field.numericFields tag <|> listed? Field.textFields tag <|>
    listed? Field.dateFields tag <|> listed? Field.booleanFields tag

def subbedField (f : Field) (tag : String) (params : List Value) : Guarded FieldTest :=
  match f with
  | .price => liftExcept (SubbedField.price tag params)
  | .date => liftExcept (SubbedField.dated tag params)
  | .altCode => liftExcept (SubbedField.altCode tag params)
  | .attributes => liftExcept (SubbedField.attributes tag params)
  | f => breach (.notSubbed f)

def fieldTest (tag : String) (params : List Value) : Guarded FieldTest :=
  match plain? tag with
  | some f => liftExcept (plainField f tag params)
  | none =>
    match listed? Field.subbedFields tag with
    | some f => subbedField f tag params
    | none => throw ⟨.unknownBooleanTupleNodeType, tag⟩

/-- The length of a choice, checked before it is decreased and halved. -/
def choiceLength (length : Nat) : Guarded Unit := do
  if length < 5 then throw ⟨.numericIfTupleHasInvalidLength, s!"length {length}"⟩
  let parameters ← minus length 1
  if parameters % 2 ≠ 0 then throw ⟨.numericIfTupleHasInvalidLength, s!"length {length}"⟩
  let parameters ← minus length 1
  if Limits.arms < parameters / 2 then
    throw ⟨.numericIfArmLimitExceeded, s!"{parameters / 2} arms exceed {Limits.arms}"⟩

/-- The last arm is taken off the others, which may not be gone then. -/
def splitArms (as : List Arm) : Guarded (Arm × List Arm × Arm) :=
  match as.getLast?, as.dropLast with
  | some last, first :: rest => return (first, rest, last)
  | _, _ => breach .armsMissing

mutual

def criterion : Value → Guarded Criterion
  | .array tuple => do
    let tag ← tagOf tuple
    let index ← enter tag tuple.length
    let c ← criterionOf tag tuple
    leave index c.kind
    return c
  | v => throw ⟨.booleanTupleNotAnArray, describe v⟩
termination_by v => sizeOf v

def criterionOf (tag : String) (tuple : List Value) : Guarded Criterion := do
  let ⟨params, hp⟩ ← parameters tuple
  match CriterionTag.ofText? tag with
  | none => return .field (← fieldTest tag params)
  | some (.junction op) => do
    match ← criteria params with
    | [] => throw ⟨.logicalBooleanMissingOperands, tag⟩
    | c :: cs => return .junction op c cs
  | some .not =>
    match params, hp with
    | [], _ => throw ⟨.logicalBooleanMissingOperands, tag⟩
    | [v], _ => return .not (← criterion v)
    | params, _ => throw ⟨.logicalNotHasMoreThanOneOperand, s!"{params.length} operands"⟩
  | some (.comparison op) =>
    match params, hp with
    | [a, b], _ => return .comparison op (← operand a) (← operand b)
    | params, _ =>
      throw ⟨.numericComparisonDoesNotHave2Operands, s!"{tag} has {params.length}"⟩
  | some (.constant holds) =>
    if params.isEmpty then return .constant holds
    else throw ⟨.constantBooleanHasParameters, s!"{tag} has {params.length}"⟩
termination_by sizeOf tuple
decreasing_by
  · exact hp
  all_goals
    rename_i hp
    simp only [List.cons.sizeOf_spec] at hp
    omega

def criteria : List Value → Guarded (List Criterion)
  | [] => return []
  | v :: vs => return (← criterion v) :: (← criteria vs)
termination_by vs => sizeOf vs

def operand : Value → Guarded Operand
  | .number n => return .literal n.toDouble
  | .string tag =>
    match Field.ofTagIn? .numeric tag with
    | some f => return .field f
    | none => throw ⟨.unknownNumericField, tag⟩
  | .array tuple => do
    let tag ← tagOf tuple
    let index ← enter tag tuple.length
    let (a, k) ← operandOf tag tuple
    leave index k
    return a
  | v => throw ⟨.numericOperandTypeIsNotValid, describe v⟩
termination_by v => sizeOf v

def operandOf (tag : String) (tuple : List Value) : Guarded (Operand × Kind) :=
  match OperandTag.ofText? tag with
  | none => throw ⟨.unknownNumericTupleNodeType, tag⟩
  | some (.binary op) => do
    if tuple.length ≠ 3 then
      throw ⟨.binaryArithmeticDoesNotHave2Operands, s!"{tag} has {← minus tuple.length 1}"⟩
    let ⟨v, _⟩ ← elementAt tuple 1
    let a ← operand v
    let ⟨w, _⟩ ← elementAt tuple 2
    let b ← operand w
    return (.binary op a b, op.kind)
  | some (.unary op) => do
    if tuple.length ≠ 2 then
      throw ⟨.unaryArithmeticDoesNotHave1Operand, s!"{tag} has {← minus tuple.length 1}"⟩
    let ⟨v, _⟩ ← elementAt tuple 1
    let a ← operand v
    return (.unary op a, op.kind)
  | some .choice => do
    choiceLength tuple.length
    let ⟨params, _⟩ ← parameters tuple
    let (first, rest, last) ← splitArms (← arms params)
    return (.choice first rest last, .numericIf)
termination_by sizeOf tuple

def arms : List Value → Guarded (List Arm)
  | c :: v :: rest => return .mk (← criterion c) (← operand v) :: (← arms rest)
  | _ => return []
termination_by vs => sizeOf vs

end

theorem minus_of_le {n m : Nat} (h : m ≤ n) : minus n m = pure (n - m) := if_pos h

theorem bind_apply (x : Guarded α) (f : α → Guarded β) (p : Progress) :
    (x >>= f) p = x p >>= fun r => ExceptT.bindCont f r.1 r.2 := rfl

theorem counted_apply (p : Progress) :
    counted p = if p.Countable then .ok (.ok p.enter, p) else .error .overflow := by
  have hcounted : counted p = (match p.enter? with
      | some q => return q
      | none => breach .overflow : Guarded Progress) p := rfl
  rw [hcounted, Progress.enter?]
  split <;> rfl

theorem enter_overflows {p : Progress} (h : ¬p.Countable) (tag : String) (length : Nat) :
    enter tag length p = .error .overflow := by
  rw [enter, bind_apply, counted_apply, if_neg h]
  rfl

theorem enter_apply {p : Progress} (h : p.Countable) (tag : String) (length : Nat) :
    enter tag length p = .ok (outcome (enterTuple tag length) p) := by
  have hsize : 1 ≤ (p.enter.add tag).nodes.size := by simp
  rw [enter, bind_apply, counted_apply, if_pos h, outcome_enterTuple]
  change (minus (p.enter.add tag).nodes.size 1 >>= _) (p.enter.add tag) = _
  rw [minus_of_le hsize, pure_bind]
  cases exceededLimit? tag length (p.enter.add tag) <;> rfl

/-- A tuple that the log has may be left while it is open. -/
theorem leave_apply {index : Nat} {p : Progress} (hindex : index < p.nodes.size)
    (hdepth : p.depth ≠ 0) (k : Kind) : leave index k p = .ok (outcome (leaveTuple index k) p) := by
  have hleave : leave index k p =
      (if p.nodes.size ≤ index then breach (.unlogged index)
        else if p.depth = 0 then breach .noneOpen
        else set (p.exit index k) : Guarded Unit) p := rfl
  rw [hleave, if_neg (by omega), if_neg hdepth]
  rfl

/-- After what is within a tuple, the tuple itself is in the log and open. -/
theorem leave_of_opens {p q : Progress} {tag : String} (h : Opens (p.enter.add tag) q [])
    (k : Kind) :
    leave ((p.enter.add tag).nodes.size - 1) k q =
      .ok (outcome (leaveTuple ((p.enter.add tag).nodes.size - 1) k) q) := by
  apply leave_apply
  · obtain ⟨es, happ, -⟩ := h.log
    have hsize := congrArg List.length happ.nodes_eq
    simp only [Array.length_toList, List.length_append, Progress.add_nodes, Array.size_push]
      at hsize
    simp only [hsize, Progress.add_nodes, Array.size_push]
    omega
  · rw [h.depth_eq]
    simp

/-- While one more tuple can be counted, the guarded parse comes to what the other does; and one
more can be counted when they return. -/
structure Follows (x : Guarded α) (y : Parse α) : Prop where
  apply_eq {p : Progress} : p.Countable → x p = .ok (outcome y p)
  countable {p q : Progress} {a : α} : p.Countable → Runs y p a q → q.Countable

theorem liftExcept_apply (r : Except Fault α) (p : Progress) :
    (liftExcept r : Guarded α) p = .ok (outcome (liftExcept r) p) := by
  cases r <;> rfl

namespace Follows

theorem liftExcept (r : Except Fault α) : Follows (liftExcept r) (liftExcept r) where
  apply_eq _ := liftExcept_apply r _
  countable h hr := (runs_liftExcept.mp hr).2 ▸ h

theorem pure (a : α) : Follows (Pure.pure a) (Pure.pure a) := liftExcept (.ok a)

theorem throw (f : Fault) : Follows (throw f : Guarded α) (throw f) := liftExcept (.error f)

theorem bind {x : Guarded α} {y : Parse α} {f : α → Guarded β} {g : α → Parse β}
    (hx : Follows x y) (hf : ∀ a, Follows (f a) (g a)) : Follows (x >>= f) (y >>= g) where
  apply_eq {p} h := by
    rw [bind_apply, hx.apply_eq h, outcome_bind]
    rcases hr : outcome y p with ⟨e | a, q⟩
    · rfl
    · exact (hf a).apply_eq (hx.countable h hr)
  countable h hr := by
    obtain ⟨a, q, hy, hg⟩ := runs_bind.mp hr
    exact (hf a).countable (hx.countable h hy) hg

/-- What keeps to the limits is far from the greatest count. -/
theorem countable_of_limits {tag : String} {length : Nat} {p : Progress}
    (h : exceededLimit? tag length p = none) : p.Countable := by
  obtain ⟨hdepth, hcount, -⟩ := exceededLimit?_eq_none_iff.mp h
  have hd : Limits.depth < Progress.greatestCount := by decide
  have hn : Limits.nodes < Progress.greatestCount := by decide
  exact ⟨by omega, by omega⟩

/-- If what is within a tuple leaves all that it enters, then the tuple can be left: its own entry
is in the log, and it is the one that is open. -/
theorem tuple {x : Guarded α} {y : Parse α} (hx : Follows x y)
    (hy : ∀ p a q, Runs y p a q → Opens p q []) (tag : String) (length : Nat) (k : α → Kind)
    (g : α → β) :
    Follows
      (do
        let index ← enter tag length
        let a ← x
        leave index (k a)
        return g a)
      (do
        let index ← enterTuple tag length
        let a ← y
        leaveTuple index (k a)
        return g a) where
  apply_eq {p} h := by
    rw [bind_apply, enter_apply h, outcome_bind, outcome_enterTuple]
    cases hl : exceededLimit? tag length (p.enter.add tag) with
    | some f => rfl
    | none =>
      change (x >>= fun a => _) (p.enter.add tag) = _
      rw [bind_apply, hx.apply_eq (countable_of_limits hl)]
      dsimp only
      rw [outcome_bind]
      rcases hr : outcome y (p.enter.add tag) with ⟨e | a, q⟩
      · rfl
      · change (leave _ (k a) >>= fun _ => _) q = _
        rw [bind_apply, leave_of_opens (hy _ a q hr) (k a)]
        rfl
  countable h hr := by
    obtain ⟨hl, a, r, hy, -, rfl⟩ := runs_tuple.mp hr
    obtain ⟨hdepth, hcount⟩ := hx.countable (countable_of_limits hl) hy
    exact ⟨(Nat.sub_le ..).trans_lt hdepth, hcount⟩

end Follows

/-- The lists have every field, those with sub-fields last. -/
theorem ofTag?_eq (tag : String) :
    Field.ofTag? tag = (plain? tag <|> listed? Field.subbedFields tag) := by
  simp [Field.ofTag?, Field.all, plain?, listed?, List.find?_append, Option.or_assoc]

theorem isPlain_of_plain? {tag : String} {f : Field} (h : plain? tag = some f) :
    f.isPlain = true := by
  have hfind : (Field.numericFields ++ Field.textFields ++ Field.dateFields ++
      Field.booleanFields).find? (·.tag == tag) = some f := by
    simpa [plain?, listed?, List.find?_append, Option.or_assoc] using h
  exact (by decide : ∀ g ∈ Field.numericFields ++ Field.textFields ++ Field.dateFields ++
    Field.booleanFields, g.isPlain = true) f (List.mem_of_find?_eq_some hfind)

/-- Only a field with sub-fields is read as one. -/
theorem fieldTest_eq (tag : String) (params : List Value) :
    fieldTest tag params = liftExcept (Wire.fieldTest tag params) := by
  have htag := ofTag?_eq tag
  unfold fieldTest
  cases hplain : plain? tag with
  | some f =>
    rw [hplain] at htag
    obtain rfl := Field.tag_of_ofTag? htag
    rw [fieldTest_of_plain (isPlain_of_plain? hplain)]
  | none =>
    rw [hplain] at htag
    dsimp only
    cases hsubbed : listed? Field.subbedFields tag with
    | some f =>
      rw [hsubbed] at htag
      have hmem : f ∈ Field.subbedFields := List.mem_of_find?_eq_some hsubbed
      have hcases : f = .price ∨ f = .date ∨ f = .altCode ∨ f = .attributes := by
        simpa [Field.subbedFields] using hmem
      rw [Wire.fieldTest, htag]
      obtain rfl | rfl | rfl | rfl := hcases <;> rfl
    | none =>
      rw [hsubbed] at htag
      rw [Wire.fieldTest, htag]
      rfl

theorem choiceLength_eq (parameters : Nat) :
    choiceLength (parameters + 1) =
      match choiceFault? parameters with
      | some f => throw f
      | none => pure () := by
  have hminus : minus (parameters + 1) 1 = pure parameters := minus_of_le (by omega)
  unfold choiceLength choiceFault?
  by_cases hfew : parameters < 4
  · simp [hfew]
  · have hlength : ¬parameters + 1 < 5 := by omega
    by_cases hodd : parameters % 2 = 1 <;> by_cases harms : Limits.arms < parameters / 2 <;>
      simp [hminus, hfew, hlength, hodd, harms]

theorem splitArms_cons_cons (a b : Arm) (rest : List Arm) :
    splitArms (a :: b :: rest) =
      pure (a, (b :: rest).dropLast, (b :: rest).getLast (List.cons_ne_nil _ _)) := by
  simp [splitArms, List.getLast?_eq_some_getLast]

/-- Whatever the value is parsed as, the guarded parse follows. -/
structure Safe (v : Value) : Prop where
  criterion : Follows (Guarded.criterion v) (Wire.criterion v)
  operand : Follows (Guarded.operand v) (Wire.operand v)

section Params

variable {params : List Value} (h : ∀ v ∈ params, Safe v)
include h

theorem criteria_follows : Follows (Guarded.criteria params) (Wire.criteria params) := by
  induction params with
  | nil =>
    rw [Guarded.criteria, Wire.criteria]
    exact .pure []
  | cons v vs ih =>
    obtain ⟨hv, hvs⟩ := List.forall_mem_cons.mp h
    rw [Guarded.criteria, Wire.criteria]
    exact hv.criterion.bind fun c => (ih hvs).bind fun cs => .pure (c :: cs)

theorem arms_follows : Follows (Guarded.arms params) (Wire.arms params) := by
  induction params using armParts.induct with
  | case1 c v rest ih =>
    obtain ⟨hc, hv, hrest⟩ := by simpa only [List.forall_mem_cons] using h
    rw [Guarded.arms, Wire.arms]
    exact hc.criterion.bind fun c => hv.operand.bind fun a => (ih hrest).bind fun as =>
      .pure (Arm.mk c a :: as)
  | case2 vs hvs =>
    rw [Guarded.arms.eq_2 vs hvs, Wire.arms.eq_2 vs hvs]
    exact .pure []

theorem criterionOf_follows (tag : String) :
    Follows (Guarded.criterionOf tag (.string tag :: params)) (Wire.criterionOf tag params) := by
  rw [Guarded.criterionOf, Wire.criterionOf.eq_def]
  simp only [parameters, pure_bind]
  cases CriterionTag.ofText? tag with
  | none =>
    simp only [fieldTest_eq]
    cases Wire.fieldTest tag params with
    | ok t => exact .pure (Criterion.field t)
    | error f => exact .throw f
  | some t =>
    cases t with
    | junction op =>
      refine (criteria_follows h).bind fun cs => ?_
      cases cs with
      | nil => exact .throw _
      | cons c cs => exact .pure _
    | not =>
      rcases params with _ | ⟨v, _ | ⟨w, rest⟩⟩
      · exact .throw _
      · exact (h v (List.mem_singleton_self v)).criterion.bind fun c => .pure (Criterion.not c)
      · exact .throw _
    | comparison op =>
      rcases params with _ | ⟨v, _ | ⟨w, _ | ⟨x, rest⟩⟩⟩
      · exact .throw _
      · exact .throw _
      · obtain ⟨hv, hw⟩ := List.forall_mem_cons.mp h
        exact hv.operand.bind fun a => (List.forall_mem_singleton.mp hw).operand.bind fun b =>
          .pure (Criterion.comparison op a b)
      · exact .throw _
    | constant holds =>
      cases params with
      | nil => exact .pure _
      | cons v vs => exact .throw _

theorem operandOf_follows (tag : String) :
    Follows (Guarded.operandOf tag (.string tag :: params)) (Wire.operandOf tag params) := by
  rw [Guarded.operandOf, Wire.operandOf.eq_def]
  cases OperandTag.ofText? tag with
  | none => exact .throw _
  | some t =>
    cases t with
    | binary op =>
      rcases params with _ | ⟨v, _ | ⟨w, _ | ⟨x, rest⟩⟩⟩
      · exact .throw _
      · exact .throw _
      · obtain ⟨hv, hw⟩ := List.forall_mem_cons.mp h
        exact hv.operand.bind fun a => (List.forall_mem_singleton.mp hw).operand.bind fun b =>
          .pure (Operand.binary op a b, op.kind)
      · exact .throw _
    | unary op =>
      rcases params with _ | ⟨v, _ | ⟨w, rest⟩⟩
      · exact .throw _
      · exact (h v (List.mem_singleton_self v)).operand.bind fun a => .pure (Operand.unary op a, op.kind)
      · exact .throw _
    | choice =>
      simp only [List.length_cons, choiceLength_eq, parameters]
      cases hc : choiceFault? params.length with
      | some f => exact .throw f
      | none =>
        -- four parameters at least, so that two arms are there to be split
        obtain ⟨hl, -⟩ := choiceFault?_eq_none_iff.mp hc
        rcases params with _ | ⟨c, _ | ⟨v, _ | ⟨d, _ | ⟨w, rest⟩⟩⟩⟩
        · simp at hl
        · simp at hl
        · simp at hl
        · simp at hl
        · obtain ⟨hc, hv, hd, hw, hrest⟩ := by simpa only [List.forall_mem_cons] using h
          simp only [Guarded.arms, Wire.arms, bind_assoc, pure_bind, splitArms_cons_cons,
            splitArms?]
          exact hc.criterion.bind fun _ => hv.operand.bind fun _ => hd.criterion.bind fun _ =>
            hw.operand.bind fun _ => (arms_follows hrest).bind fun _ => .pure _

end Params

/-- What is within a tuple leaves all that it enters. -/
theorem opens_of_body {x : Parse α} {k : α → Kind} {body : Except Fault Body}
    (hx : k <$> x = do
      let b ← liftExcept body
      parseAll b.parts
      return b.kind) {p q : Progress} {a : α} (h : Runs x p a q) : Opens p q [] := by
  have hk : Runs (k <$> x) p (k a) q := by
    rw [map_eq_pure_bind]
    exact runs_bind.mpr ⟨a, q, h, runs_pure.mpr ⟨rfl, rfl⟩⟩
  rw [hx] at hk
  simp only [runs_bind, runs_liftExcept, runs_pure] at hk
  obtain ⟨b, _, ⟨-, rfl⟩, _, _, hparts, -, rfl⟩ := hk
  exact kept_opens.runs_all hparts

theorem safe_tuple {tag : String} {params : List Value} (h : ∀ v ∈ params, Safe v) :
    Safe (headed tag params) where
  criterion := by
    rw [headed, Guarded.criterion, Wire.criterion]
    exact (criterionOf_follows h tag).tuple
      (fun _ _ _ => opens_of_body (criterionOf_body tag params)) tag (params.length + 1)
      Criterion.kind id
  operand := by
    rw [headed, Guarded.operand, Wire.operand]
    exact (operandOf_follows h tag).tuple
      (fun _ _ _ => opens_of_body (operandOf_body tag params)) tag (params.length + 1)
      Prod.snd Prod.fst

/-- No step of the parse depends on the progress: either parse lifts one and the same result. -/
structure Still (v : Value) : Prop where
  criterion : ∃ r : Except Fault Criterion,
    Guarded.criterion v = liftExcept r ∧ Wire.criterion v = liftExcept r
  operand : ∃ r : Except Fault Operand,
    Guarded.operand v = liftExcept r ∧ Wire.operand v = liftExcept r

theorem still_untagged {items : List Value} (h : ∀ tag params, items ≠ .string tag :: params) :
    Still (.array items) := by
  have htag : tagOf items = throw (missingTag items) := tagOf.eq_2 items h
  constructor
  · refine ⟨.error (missingTag items), ?_, Wire.criterion.eq_2 items h⟩
    rw [Guarded.criterion, htag]
    rfl
  · refine ⟨.error (missingTag items), ?_, Wire.operand.eq_4 items h⟩
    rw [Guarded.operand, htag]
    rfl

/-- What is no array has no elements to take and is not logged. -/
theorem still_scalar {v : Value} (h : ∀ items, v ≠ .array items) : Still v where
  criterion := ⟨.error ⟨.booleanTupleNotAnArray, describe v⟩, Guarded.criterion.eq_2 v h,
    Wire.criterion.eq_3 v (fun _ _ => h _) h⟩
  operand := by
    cases v with
    | array items => exact absurd rfl (h items)
    | string tag =>
      rw [Guarded.operand, Wire.operand]
      cases Field.ofTagIn? .numeric tag with
      | some f => exact ⟨.ok (.field f), rfl, rfl⟩
      | none => exact ⟨.error ⟨.unknownNumericField, tag⟩, rfl, rfl⟩
    | number n =>
      rw [Guarded.operand, Wire.operand]
      exact ⟨.ok (.literal n.toDouble), rfl, rfl⟩
    | _ =>
      refine ⟨.error _, Guarded.operand.eq_4 _ ?_ ?_ ?_, Wire.operand.eq_5 _ ?_ ?_ ?_ ?_⟩ <;> simp

/-- What is no tuple is not counted either. -/
theorem still_of_ne_headed {v : Value} (h : ∀ tag params, v ≠ headed tag params) : Still v := by
  by_cases harray : ∃ items, v = .array items
  · obtain ⟨items, rfl⟩ := harray
    exact still_untagged fun tag params hi => h tag params (congrArg Value.array hi)
  · exact still_scalar fun items hv => harray ⟨items, hv⟩

theorem Still.safe {v : Value} (h : Still v) : Safe v where
  criterion := by
    obtain ⟨r, hg, hw⟩ := h.criterion
    rw [hg, hw]
    exact .liftExcept r
  operand := by
    obtain ⟨r, hg, hw⟩ := h.operand
    rw [hg, hw]
    exact .liftExcept r

theorem Still.apply_eq {v : Value} (h : Still v) (p : Progress) :
    Guarded.criterion v p = .ok (outcome (Wire.criterion v) p) ∧
      Guarded.operand v p = .ok (outcome (Wire.operand v) p) := by
  obtain ⟨r, hg, hw⟩ := h.criterion
  obtain ⟨s, hg', hw'⟩ := h.operand
  rw [hg, hw, hg', hw']
  exact ⟨liftExcept_apply r p, liftExcept_apply s p⟩

theorem safe_scalar {v : Value} (h : ∀ items, v ≠ .array items) : Safe v := (still_scalar h).safe

theorem safe_array {items : List Value} (h : ∀ v ∈ items, Safe v) : Safe (.array items) := by
  by_cases ht : ∃ tag params, items = .string tag :: params
  · obtain ⟨tag, params, rfl⟩ := ht
    exact safe_tuple (List.forall_mem_cons.mp h).2
  · exact (still_untagged fun tag params hi => ht ⟨tag, params, hi⟩).safe

mutual

theorem safe : ∀ v, Safe v
  | .array items => safe_array (safe_all items)
  | .null => safe_scalar nofun
  | .bool _ => safe_scalar nofun
  | .number _ => safe_scalar nofun
  | .string _ => safe_scalar nofun
  | .object _ => safe_scalar nofun

theorem safe_all : ∀ vs : List Value, ∀ v ∈ vs, Safe v
  | [] => nofun
  | v :: vs => List.forall_mem_cons.mpr ⟨safe v, safe_all vs⟩

end

/-- A tuple is counted before anything in it is looked at. -/
theorem tuple_overflows {p : Progress} (h : ¬p.Countable) (tag : String) (params : List Value) :
    Guarded.criterion (headed tag params) p = .error .overflow ∧
      Guarded.operand (headed tag params) p = .error .overflow := by
  rw [headed, Guarded.criterion, Guarded.operand, tagOf, pure_bind, pure_bind, bind_apply,
    bind_apply, enter_overflows h]
  exact ⟨rfl, rfl⟩

/-- From progress after which one more tuple can be counted, no step of the parse goes wrong,
whatever the value: it comes to a result or to a fault. If none can be, then the first step with a
tuple goes wrong, and only with a tuple. -/
theorem never_breaks_off (v : Value) (p : Progress) :
    (p.Countable ∨ (∀ tag params, v ≠ headed tag params) →
      Guarded.criterion v p = .ok (outcome (Wire.criterion v) p) ∧
        Guarded.operand v p = .ok (outcome (Wire.operand v) p)) ∧
    (¬p.Countable → ∀ tag params, v = headed tag params →
      Guarded.criterion v p = .error .overflow ∧ Guarded.operand v p = .error .overflow) := by
  refine ⟨?_, ?_⟩
  · rintro (hp | hv)
    · exact ⟨(safe v).criterion.apply_eq hp, (safe v).operand.apply_eq hp⟩
    · exact (still_of_ne_headed hv).apply_eq p
  · rintro hp tag params rfl
    exact tuple_overflows hp tag params

/-- The last tuple that can be counted is far too deep; none can be counted after it, while the tag
of a field is still read. -/
theorem never_breaks_off_lastCount :
    Guarded.criterion (headed "All" []) ⟨Progress.greatestCount - 1, 0, #[]⟩ =
        .ok (.error ⟨.tupleDepthLimitExceeded, "depth 18446744073709551615 exceeds 128"⟩,
          ⟨Progress.greatestCount, 1, #[⟨Progress.greatestCount, "All", none⟩]⟩) ∧
      Guarded.operand (headed "+" []) ⟨Progress.greatestCount, 1, #[]⟩ = .error .overflow ∧
      Guarded.operand (.string "Volume") ⟨Progress.greatestCount, 1, #[]⟩ =
        .ok (.ok (.field .volume), ⟨Progress.greatestCount, 1, #[]⟩) := by
  have hlast : Progress.Countable ⟨Progress.greatestCount - 1, 0, #[]⟩ := by decide
  have hnone : ¬Progress.Countable ⟨Progress.greatestCount, 1, #[]⟩ := by decide
  have hfield : ∀ tag params, Value.string "Volume" ≠ headed tag params := by
    intro tag params h
    cases h
  refine ⟨?_, ((never_breaks_off _ _).2 hnone _ _ rfl).2, ?_⟩
  · rw [((never_breaks_off (headed "All" []) _).1 (.inl hlast)).1, headed, Wire.criterion,
      outcome_bind]
    rfl
  · rw [((never_breaks_off (.string "Volume") _).1 (.inr hfield)).2, Wire.operand]
    rfl

/-- Not all progress admits one more tuple. -/
theorem breaks_off_greatestCount :
    ¬∀ v p, Guarded.criterion v p = .ok (outcome (Wire.criterion v) p) := by
  intro h
  have hp : ¬Progress.Countable ⟨Progress.greatestCount, 0, #[]⟩ := by decide
  have hover := (tuple_overflows hp "All" []).1
  rw [h] at hover
  exact nomatch hover

end Guarded
end ScanCriteria.Wire
