import ScanCriteria.Calendar.Moment
import ScanCriteria.Field
import ScanCriteria.Kind
import ScanCriteria.Number.Double
import ScanCriteria.Operator
import ScanCriteria.SubField

/-!
# Criteria

A criterion is a condition on an instrument: a constant, a combination of criteria, a comparison of
two numeric expressions, or a test of one field. Numeric expressions may in turn choose between
values by criteria, so the two kinds of tree are mutually recursive. The lists of operands and of
arms have a first element of their own, so neither is ever empty. That a test fits its field is not
part of the type; serializing decides it. The dates of a criterion are moments, so their local year
is in range.
-/
namespace ScanCriteria

/-- Bounds of a range; both may be absent. -/
structure Bounds (α : Type) where
  min : Option α
  max : Option α
  deriving DecidableEq, Repr

/-- What the value of a field is held against. -/
inductive Target (α : Type) where
  | equals (value : α)
  | inRange (bounds : Bounds α)
  deriving DecidableEq, Repr

/-- A text to be found in the value of a field. -/
structure TextMatch where
  value : String
  anchor : Anchor
  ignoreCase : Bool
  deriving DecidableEq, Repr

/-- A test of one field. A test of a sub-field without a target asks only whether it has a value. -/
inductive FieldTest where
  | hasValue (field : Field)
  | boolean (field : Field) (target : Bool)
  | numeric (field : Field) (target : Target Double)
  | date (field : Field) (target : Target Moment)
  | text (field : Field) (pattern : TextMatch)
  | price (sub : PriceSubField) (target : Option (Target Double))
  | dated (sub : DateSubField) (target : Option (Target Moment))
  | altCode (sub : AltCode) (pattern : Option TextMatch)
  | attributes (sub : Attribute) (pattern : Option TextMatch)

mutual

/-- A condition on an instrument. -/
inductive Criterion where
  | constant (holds : Bool)
  | not (operand : Criterion)
  | junction (op : Connective) (first : Criterion) (rest : List Criterion)
  | comparison (op : Comparison) (left right : Operand)
  | field (test : FieldTest)

/-- A numeric expression. -/
inductive Operand where
  | literal (x : Double)
  | field (f : Field)
  | binary (op : Binary) (left right : Operand)
  | unary (op : Unary) (operand : Operand)
  /-- The value of the first arm whose condition holds. The last arm is taken when no other is; its
  condition is kept and never asked for. -/
  | choice (first : Arm) (rest : List Arm) (last : Arm)

inductive Arm where
  | mk (condition : Criterion) (value : Operand)

end

instance : Inhabited Criterion := ⟨.constant true⟩

instance : Inhabited Operand := ⟨.literal .zero⟩

instance : Inhabited Arm := ⟨.mk default default⟩

namespace FieldTest

def targetKind (equals inRange : Kind) : Target α → Kind
  | .equals _ => equals
  | .inRange _ => inRange

def kind : FieldTest → Kind
  | hasValue _ => .fieldHasValue
  | boolean _ _ => .booleanFieldEquals
  | numeric _ t => targetKind .numericFieldEquals .numericFieldInRange t
  | date _ t => targetKind .dateFieldEquals .dateFieldInRange t
  | text _ _ => .textFieldContains
  | price _ none => .priceSubFieldHasValue
  | price _ (some t) => targetKind .priceSubFieldEquals .priceSubFieldInRange t
  | dated _ none => .dateSubFieldHasValue
  | dated _ (some t) => targetKind .dateSubFieldEquals .dateSubFieldInRange t
  | altCode _ none => .altCodeSubFieldHasValue
  | altCode _ (some _) => .altCodeSubFieldContains
  | attributes _ none => .attributeSubFieldHasValue
  | attributes _ (some _) => .attributeSubFieldContains

end FieldTest

def Connective.kind : Connective → Kind
  | .and => .and
  | .or => .or

def Comparison.kind : Comparison → Kind
  | .equals => .numericEquals
  | .greaterThan => .numericGreaterThan
  | .greaterThanOrEqual => .numericGreaterThanOrEqual
  | .lessThan => .numericLessThan
  | .lessThanOrEqual => .numericLessThanOrEqual

def Binary.kind : Binary → Kind
  | .add => .numericAdd
  | .sub => .numericSub
  | .mul => .numericMul
  | .div => .numericDiv
  | .mod => .numericMod

def Unary.kind : Unary → Kind
  | .neg => .numericNeg
  | .pos => .numericPos
  | .abs => .numericAbs

def Criterion.kind : Criterion → Kind
  | constant holds => if holds then .everything else .nothing
  | not _ => .not
  | junction op _ _ => op.kind
  | comparison op _ _ => op.kind
  | field t => t.kind

/-- The kind of a numeric node; a literal is none. -/
def Operand.kind? : Operand → Option Kind
  | literal _ => none
  | field _ => some .numericFieldValueGet
  | binary op _ _ => some op.kind
  | unary op _ => some op.kind
  | choice _ _ _ => some .numericIf

mutual

/-- Nodes of a tree, numeric ones included. -/
def Criterion.nodeCount : Criterion → Nat
  | .constant _ => 1
  | .not operand => operand.nodeCount + 1
  | .junction _ first rest => first.nodeCount + Criterion.nodeCountAll rest + 1
  | .comparison _ left right => left.nodeCount + right.nodeCount + 1
  | .field _ => 1

/-- Literals do not count. -/
def Operand.nodeCount : Operand → Nat
  | .literal _ => 0
  | .field _ => 1
  | .binary _ left right => left.nodeCount + right.nodeCount + 1
  | .unary _ operand => operand.nodeCount + 1
  | .choice first rest last => first.nodeCount + Arm.nodeCountAll rest + last.nodeCount + 1

def Arm.nodeCount : Arm → Nat
  | .mk condition value => condition.nodeCount + value.nodeCount

def Criterion.nodeCountAll : List Criterion → Nat
  | [] => 0
  | c :: rest => c.nodeCount + Criterion.nodeCountAll rest

def Arm.nodeCountAll : List Arm → Nat
  | [] => 0
  | a :: rest => a.nodeCount + Arm.nodeCountAll rest

end

end ScanCriteria
