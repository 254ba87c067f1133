import ScanCriteria.Calendar.Reading
import ScanCriteria.Criterion.Basic
import ScanCriteria.Json.Value

/-!
# Criteria as JSON documents

In its document form every node is an object whose `typeId` names its kind and whose other entries
hold its parts; a literal is a plain number. `document` writes the entries in a fixed order. Reading
takes the entries in any order and ignores those it does not know; only bounds may be missing or
`null`. It also takes a node as an array of its `typeId` and all of its parts in that order and,
below the root, the number of a kind for its label. It does not ask whether a test fits its field.
-/
namespace ScanCriteria
open Json

def fieldValueLabel : String := "NumericFieldValueGet"
def choiceLabel : String := "NumericIf"

def labelled (typeId : String) (entries : List (String × Value)) : Value :=
  .object (("typeId", .string typeId) :: entries)

def Moment.document (a : Moment) : Value := .string a.text

def boundDocument (f : α → Value) : Option α → Value
  | none => .null
  | some x => f x

def Target.documentEntries (f : α → Value) : Target α → List (String × Value)
  | equals x => [("target", f x)]
  | inRange b => [("min", boundDocument f b.min), ("max", boundDocument f b.max)]

def TextMatch.documentEntries (p : TextMatch) : List (String × Value) :=
  [("value", .string p.value), ("as_id", .string p.anchor.label),
   ("ignore_case", .bool p.ignoreCase)]

def optionEntries (f : α → List (String × Value)) : Option α → List (String × Value)
  | none => []
  | some x => f x

def FieldTest.documentEntries : FieldTest → List (String × Value)
  | hasValue f => [("field_id", .string f.label)]
  | boolean f b => [("field_id", .string f.label), ("target", .bool b)]
  | numeric f t => ("field_id", .string f.label) :: t.documentEntries .ofDouble
  | date f t => ("field_id", .string f.label) :: t.documentEntries Moment.document
  | text f p => ("field_id", .string f.label) :: p.documentEntries
  | price s t =>
    ("sub_field_id", .string s.label) :: optionEntries (Target.documentEntries .ofDouble) t
  | dated s t =>
    ("sub_field_id", .string s.label) :: optionEntries (Target.documentEntries Moment.document) t
  | altCode s p => ("sub_field_id", .string s.label) :: optionEntries TextMatch.documentEntries p
  | attributes s p => ("sub_field_id", .string s.label) :: optionEntries TextMatch.documentEntries p

mutual

def Criterion.document : Criterion → Value
  | .constant b => labelled (if b then Kind.everything else Kind.nothing).label []
  | .not c => labelled Kind.not.label [("operand", c.document)]
  | .junction op c cs =>
    labelled op.kind.label [("operands", .array (c.document :: Criterion.documents cs))]
  | .comparison op a b => labelled op.kind.label [("left", a.document), ("right", b.document)]
  | .field t => labelled t.kind.label t.documentEntries

def Operand.document : Operand → Value
  | .literal x => .ofDouble x
  | .field f => labelled fieldValueLabel [("field_id", .string f.label)]
  | .binary op a b => labelled op.label [("left", a.document), ("right", b.document)]
  | .unary op a => labelled op.label [("operand", a.document)]
  | .choice a as b =>
    labelled choiceLabel
      [("true_arms", .array (a.document :: Arm.documents as)), ("false_arm", b.document)]

def Arm.document : Arm → Value
  | .mk c a => .object [("condition", c.document), ("value", a.document)]

def Criterion.documents : List Criterion → List Value
  | [] => []
  | c :: cs => c.document :: Criterion.documents cs

def Arm.documents : List Arm → List Value
  | [] => []
  | a :: as => a.document :: Arm.documents as

end

/-- Why a document was refused. -/
inductive DocumentFault where
  | malformed
  /-- A connective without operands. -/
  | noOperands
  deriving DecidableEq, Repr

def DocumentFault.message? : DocumentFault → Option String
  | malformed => none
  | noOperands => some "invalid length 0, expected at least one element"

namespace Document

/-- A name, also as the key of an object that holds nothing else than an empty object under it. -/
def name? : Value → Option String
  | .object [(s, .object [])] => some s
  | v => v.name?

def string? (key : String) (es : Entries Value) : Option String :=
  match Entries.find? key es with
  | some (.string s) => some s
  | _ => none

def bool? (key : String) (es : Entries Value) : Option Bool :=
  match Entries.find? key es with
  | some (.bool b) => some b
  | _ => none

def number? : Value → Option Double
  | .number n => some n.toDouble
  | _ => none

def moment? : Value → Option Moment
  | .string s => Moment.readInstant? s
  | _ => none

/-- A bound, which may be missing or `null`. -/
def bound? (read : Value → Option α) (key : String) (es : Entries Value) : Option (Option α) :=
  match Entries.find? key es with
  | none | some .null => some none
  | some v => (read v).map some

def equals? (read : Value → Option α) (es : Entries Value) : Option (Target α) :=
  (Entries.find? "target" es >>= read).map .equals

def inRange? (read : Value → Option α) (es : Entries Value) : Option (Target α) := do
  let min ← bound? read "min" es
  let max ← bound? read "max" es
  return .inRange ⟨min, max⟩

def pattern? (es : Entries Value) : Option TextMatch := do
  let value ← string? "value" es
  let anchor ← Entries.find? "as_id" es >>= name? >>= Anchor.ofLabel?
  let ignoreCase ← bool? "ignore_case" es
  return ⟨value, anchor, ignoreCase⟩

def field? (es : Entries Value) : Option Field :=
  Entries.find? "field_id" es >>= name? >>= Field.ofLabel?

def sub? (ofLabel? : String → Option α) (es : Entries Value) : Option α :=
  Entries.find? "sub_field_id" es >>= name? >>= ofLabel?

def fieldTest? (k : Kind) (es : Entries Value) : Option FieldTest :=
  match k with
  | .fieldHasValue => return .hasValue (← field? es)
  | .booleanFieldEquals => return .boolean (← field? es) (← bool? "target" es)
  | .numericFieldEquals => return .numeric (← field? es) (← equals? number? es)
  | .numericFieldInRange => return .numeric (← field? es) (← inRange? number? es)
  | .dateFieldEquals => return .date (← field? es) (← equals? moment? es)
  | .dateFieldInRange => return .date (← field? es) (← inRange? moment? es)
  | .textFieldContains => return .text (← field? es) (← pattern? es)
  | .priceSubFieldHasValue => return .price (← sub? PriceSubField.ofLabel? es) none
  | .priceSubFieldEquals => return .price (← sub? PriceSubField.ofLabel? es) (← equals? number? es)
  | .priceSubFieldInRange =>
    return .price (← sub? PriceSubField.ofLabel? es) (← inRange? number? es)
  | .dateSubFieldHasValue => return .dated (← sub? DateSubField.ofLabel? es) none
  | .dateSubFieldEquals => return .dated (← sub? DateSubField.ofLabel? es) (← equals? moment? es)
  | .dateSubFieldInRange => return .dated (← sub? DateSubField.ofLabel? es) (← inRange? moment? es)
  | .altCodeSubFieldHasValue => return .altCode (← sub? AltCode.ofLabel? es) none
  | .altCodeSubFieldContains => return .altCode (← sub? AltCode.ofLabel? es) (← pattern? es)
  | .attributeSubFieldHasValue => return .attributes (← sub? Attribute.ofLabel? es) none
  | .attributeSubFieldContains => return .attributes (← sub? Attribute.ofLabel? es) (← pattern? es)
  | _ => none

/-- The parts of a field test that follow the field or sub-field. -/
def testParts : Kind → List String
  | .booleanFieldEquals | .numericFieldEquals | .dateFieldEquals | .priceSubFieldEquals
  | .dateSubFieldEquals => ["target"]
  | .numericFieldInRange | .dateFieldInRange | .priceSubFieldInRange | .dateSubFieldInRange =>
    ["min", "max"]
  | .textFieldContains | .altCodeSubFieldContains | .attributeSubFieldContains =>
    ["value", "as_id", "ignore_case"]
  | _ => []

/-- The name of what a field test looks at. -/
def subjectPart : Kind → String
  | .fieldHasValue | .booleanFieldEquals | .numericFieldEquals | .numericFieldInRange
  | .dateFieldEquals | .dateFieldInRange | .textFieldContains => "field_id"
  | _ => "sub_field_id"

def fieldParts (k : Kind) : List String := subjectPart k :: testParts k

/-- The value at a place that a number gives. -/
def numbered? (all : List α) : Value → Option α
  | .number (.integer i _) => if 0 ≤ i then all[i.toNat]? else none
  | _ => none

/-- Where a criterion stands in its document. -/
inductive Place where
  | root | inner

/-- The kind that a criterion's `typeId` announces. -/
def kind? : Place → Value → Option Kind
  | _, .string s => Kind.ofLabel? s
  | .root, _ => none
  | .inner, v => numbered? Kind.booleanKinds v

/-- What the kind of a criterion asks for. -/
inductive CriterionForm where
  | constant (holds : Bool)
  | not
  | junction (op : Connective)
  | comparison (op : Comparison)
  | field (k : Kind)

def CriterionForm.ofKind (k : Kind) : CriterionForm :=
  match k with
  | .everything => constant true
  | .nothing => constant false
  | .not => not
  | k =>
    match Connective.all.find? (·.kind == k), Comparison.all.find? (·.kind == k) with
    | some op, _ => junction op
    | none, some op => comparison op
    | none, none => field k

def criterionForm? (p : Place) (typeId : Value) : Option CriterionForm :=
  (kind? p typeId).map .ofKind

/-- What the `typeId` of a numeric node announces. -/
inductive OperandForm where
  | binary (op : Binary)
  | unary (op : Unary)
  | field
  | choice

namespace OperandForm

def all : List OperandForm := Binary.all.map binary ++ Unary.all.map unary ++ [field, choice]

def label : OperandForm → String
  | binary op => op.label
  | unary op => op.label
  | field => fieldValueLabel
  | choice => choiceLabel

end OperandForm

def operandForm? : Value → Option OperandForm
  | .string s => OperandForm.all.find? (·.label == s)
  | v => numbered? OperandForm.all v

def typeId? (es : Entries Value) : Option Value := Entries.find? "typeId" es

def orMalformed : Option α → Except DocumentFault α
  | some x => .ok x
  | none => .error .malformed

/-- Inside a numeric expression every fault counts as malformed. -/
def anyFault : Except DocumentFault α → Option α
  | .ok x => some x
  | .error _ => none

def junction (op : Connective) : List Criterion → Except DocumentFault Criterion
  | [] => .error .noOperands
  | c :: cs => .ok (.junction op c cs)

def choice? (as : List Arm) (b : Arm) : Option Operand :=
  match as with
  | [] => none
  | a :: as => some (.choice a as b)

mutual

def criterion (p : Place) : Value → Except DocumentFault Criterion
  | .object es =>
    match typeId? es >>= criterionForm? p with
    | none => .error .malformed
    | some (.constant b) => .ok (.constant b)
    | some .not => (criterionUnder "operand" es).map .not
    | some (.junction op) => do junction op (← criteriaUnder "operands" es)
    | some (.comparison op) => orMalformed do
      let a ← operandUnder "left" es
      let b ← operandUnder "right" es
      return .comparison op a b
    | some (.field k) => orMalformed ((fieldTest? k es).map .field)
  | .array (typeId :: vs) =>
    match criterionForm? p typeId, vs with
    | some (.constant b), [] => .ok (.constant b)
    | some .not, [v] => (criterion .inner v).map .not
    | some (.junction op), [.array cs] => do junction op (← criteria cs)
    | some (.comparison op), [a, b] => orMalformed do
      let a ← operand? a
      let b ← operand? b
      return .comparison op a b
    | some (.field k), vs => orMalformed do
      let t ← Value.parts? (fieldParts k) (.array vs) >>= fieldTest? k
      return .field t
    | _, _ => .error .malformed
  | _ => .error .malformed

def criterionUnder (key : String) : Entries Value → Except DocumentFault Criterion
  | [] => .error .malformed
  | (k, v) :: rest => if k = key then criterion .inner v else criterionUnder key rest

def criteria : List Value → Except DocumentFault (List Criterion)
  | [] => .ok []
  | v :: vs => do
    let c ← criterion .inner v
    let cs ← criteria vs
    return c :: cs

def criteriaUnder (key : String) : Entries Value → Except DocumentFault (List Criterion)
  | [] => .error .malformed
  | (k, .array vs) :: rest => if k = key then criteria vs else criteriaUnder key rest
  | (k, _) :: rest => if k = key then .error .malformed else criteriaUnder key rest

def operand? : Value → Option Operand
  | .number n => some (.literal n.toDouble)
  | .object es =>
    match typeId? es >>= operandForm? with
    | none => none
    | some .field => (field? es).map .field
    | some (.binary op) => do
      let a ← operandUnder "left" es
      let b ← operandUnder "right" es
      return .binary op a b
    | some (.unary op) => (operandUnder "operand" es).map (.unary op)
    | some .choice => do choice? (← armsUnder "true_arms" es) (← armUnder "false_arm" es)
  | .array (typeId :: vs) =>
    match operandForm? typeId, vs with
    | some .field, [v] => (field? [("field_id", v)]).map .field
    | some (.binary op), [a, b] => do
      let a ← operand? a
      let b ← operand? b
      return .binary op a b
    | some (.unary op), [a] => (operand? a).map (.unary op)
    | some .choice, [.array as, b] => do choice? (← arms as) (← arm? b)
    | _, _ => none
  | _ => none

def operandUnder (key : String) : Entries Value → Option Operand
  | [] => none
  | (k, v) :: rest => if k = key then operand? v else operandUnder key rest

def arm? : Value → Option Arm
  | .object es => do
    let c ← anyFault (criterionUnder "condition" es)
    let a ← operandUnder "value" es
    return .mk c a
  | .array [c, a] => do
    let c ← anyFault (criterion .inner c)
    let a ← operand? a
    return .mk c a
  | _ => none

def armUnder (key : String) : Entries Value → Option Arm
  | [] => none
  | (k, v) :: rest => if k = key then arm? v else armUnder key rest

def arms : List Value → Option (List Arm)
  | [] => some []
  | v :: vs => do
    let a ← arm? v
    let as ← arms vs
    return a :: as

def armsUnder (key : String) : Entries Value → Option (List Arm)
  | [] => none
  | (k, .array vs) :: rest => if k = key then arms vs else armsUnder key rest
  | (k, _) :: rest => if k = key then none else armsUnder key rest

end

end Document

def Criterion.ofDocument (v : Value) : Except DocumentFault Criterion :=
  Document.criterion .root v

def Operand.ofDocument? (v : Value) : Option Operand := Document.operand? v

end ScanCriteria
