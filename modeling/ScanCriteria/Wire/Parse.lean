import ScanCriteria.Limits
import ScanCriteria.Wire.FieldTuple
import ScanCriteria.Wire.Progress

/-!
# Parsing wire tuples

`parse` takes a JSON value to the criterion that it denotes, or to its first fault, together with
the progress made. A tuple is logged when it is entered and held against the limits before anything
else in it is looked at. Parts are parsed from left to right and the first fault ends the parse, so
the progress then shows the open tuples as unresolved.
-/
namespace ScanCriteria.Wire
open Json

/-- A step of a parse: it may fail, and changes the progress either way. -/
abbrev Parse (α : Type) := ExceptT Fault (StateM Progress) α

/-- The limit that the tuple just entered exceeds. -/
def exceededLimit? (tag : String) (length : Nat) (p : Progress) : Option Fault :=
  if Limits.depth < p.depth then
    some ⟨.tupleDepthLimitExceeded, s!"depth {p.depth} exceeds {Limits.depth}"⟩
  else if Limits.nodes < p.nodeCount then
    some ⟨.tupleNodeCountLimitExceeded, s!"{p.nodeCount} nodes exceed {Limits.nodes}"⟩
  else if Limits.length < length then
    some ⟨.tupleLengthLimitExceeded, s!"{tag} length {length} exceeds {Limits.length}"⟩
  else none

/-- Enters and logs a tuple, then enforces the limits; gives the place of its log entry. -/
def enterTuple (tag : String) (length : Nat) : Parse Nat := do
  modify fun p => p.enter.add tag
  let p ← get
  match exceededLimit? tag length p with
  | some f => throw f
  | none => return p.nodes.size - 1

/-- Leaves the tuple logged at `index`. -/
def leaveTuple (index : Nat) (k : Kind) : Parse Unit := modify (·.exit index k)

def fail (cause : Cause) (context : String) : Parse α := throw ⟨cause, context⟩

/-- The fault of an array without a tag. -/
def missingTag : List Value → Fault
  | [] => ⟨.tupleArrayIsZeroLength, ""⟩
  | head :: _ => ⟨.tupleNodeTypeIsNotString, describe head⟩

/-- Splits arms into the first, those between and the last; there have to be two. -/
def splitArms? : List Arm → Option (Arm × List Arm × Arm)
  | first :: second :: rest =>
    some (first, (second :: rest).dropLast, (second :: rest).getLast (List.cons_ne_nil _ _))
  | _ => none

/-- Whether a choice may have this many parameters: pairs, and two of them at least. -/
def choiceFault? (parameters : Nat) : Option Fault :=
  if parameters < 4 ∨ parameters % 2 ≠ 0 then
    some ⟨.numericIfTupleHasInvalidLength, s!"length {parameters + 1}"⟩
  else if Limits.arms < parameters / 2 then
    some ⟨.numericIfArmLimitExceeded, s!"{parameters / 2} arms exceed {Limits.arms}"⟩
  else none

mutual

def criterion : Value → Parse Criterion
  | .array (.string tag :: params) => do
    let index ← enterTuple tag (params.length + 1)
    let c ← criterionOf tag params
    leaveTuple index c.kind
    return c
  | .array items => throw (missingTag items)
  | v => fail .booleanTupleNotAnArray (describe v)

def criterionOf (tag : String) (params : List Value) : Parse Criterion :=
  match CriterionTag.ofText? tag with
  | none => liftExcept ((fieldTest tag params).map .field)
  | some (.junction op) => do
    match ← criteria params with
    | [] => fail .logicalBooleanMissingOperands tag
    | c :: cs => return .junction op c cs
  | some .not =>
    match params with
    | [] => fail .logicalBooleanMissingOperands tag
    | [v] => do
      let c ← criterion v
      return .not c
    | params => fail .logicalNotHasMoreThanOneOperand s!"{params.length} operands"
  | some (.comparison op) =>
    match params with
    | [a, b] => do
      let a ← operand a
      let b ← operand b
      return .comparison op a b
    | params => fail .numericComparisonDoesNotHave2Operands s!"{tag} has {params.length}"
  | some (.constant holds) =>
    if params.isEmpty then return .constant holds
    else fail .constantBooleanHasParameters s!"{tag} has {params.length}"

def criteria : List Value → Parse (List Criterion)
  | [] => return []
  | v :: vs => do
    let c ← criterion v
    let cs ← criteria vs
    return c :: cs

def operand : Value → Parse Operand
  | .number n => return .literal n.toDouble
  | .string tag =>
    match Field.ofTagIn? .numeric tag with
    | some f => return .field f
    | none => fail .unknownNumericField tag
  | .array (.string tag :: params) => do
    let index ← enterTuple tag (params.length + 1)
    let (a, k) ← operandOf tag params
    leaveTuple index k
    return a
  | .array items => throw (missingTag items)
  | v => fail .numericOperandTypeIsNotValid (describe v)

/-- The numeric node of a tag and its parameters, with its kind. -/
def operandOf (tag : String) (params : List Value) : Parse (Operand × Kind) :=
  match OperandTag.ofText? tag with
  | none => fail .unknownNumericTupleNodeType tag
  | some (.binary op) =>
    match params with
    | [a, b] => do
      let a ← operand a
      let b ← operand b
      return (.binary op a b, op.kind)
    | params => fail .binaryArithmeticDoesNotHave2Operands s!"{tag} has {params.length}"
  | some (.unary op) =>
    match params with
    | [a] => do
      let a ← operand a
      return (.unary op a, op.kind)
    | params => fail .unaryArithmeticDoesNotHave1Operand s!"{tag} has {params.length}"
  | some .choice =>
    match choiceFault? params.length with
    | some f => throw f
    | none => do
      match splitArms? (← arms params) with
      | some (first, rest, last) => return (.choice first rest last, .numericIf)
      | none => fail .numericIfTupleHasInvalidLength s!"length {params.length + 1}"

def arms : List Value → Parse (List Arm)
  | c :: v :: rest => do
    let c ← criterion c
    let a ← operand v
    let as ← arms rest
    return .mk c a :: as
  | _ => return []

end

/-- A criterion with the progress that led to it. -/
structure Parsed where
  criterion : Criterion
  progress : Progress

/-- The first fault with the progress made before it. -/
structure Failure where
  fault : Fault
  progress : Progress

def parse (v : Value) : Except Failure Parsed :=
  match criterion v Progress.start with
  | (.ok c, p) => .ok ⟨c, p⟩
  | (.error f, p) => .error ⟨f, p⟩

/-- The advice of the fault, with the trail of the parse if it is asked for and not empty. -/
def Failure.advice (withTrail : Bool) (f : Failure) : String :=
  if withTrail ∧ f.progress.nodes.size ≠ 0 then
    f.fault.advice ++ "\nParse trail:\n" ++ f.progress.trail
  else f.fault.advice

end ScanCriteria.Wire
