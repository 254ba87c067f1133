/-!
# Kinds of node

Every node of a criterion has a kind; literals of numeric expressions have none. The last ten kinds
are those of numeric nodes.
-/
namespace ScanCriteria

inductive Kind where
  | and | or | not | everything | nothing
  | numericEquals | numericGreaterThan | numericGreaterThanOrEqual | numericLessThan
  | numericLessThanOrEqual | fieldHasValue | booleanFieldEquals
  | numericFieldEquals | numericFieldInRange | dateFieldEquals | dateFieldInRange
  | textFieldContains | priceSubFieldHasValue | priceSubFieldEquals | priceSubFieldInRange
  | dateSubFieldHasValue | dateSubFieldEquals | dateSubFieldInRange | altCodeSubFieldHasValue
  | altCodeSubFieldContains | attributeSubFieldHasValue | attributeSubFieldContains | numericAdd
  | numericSub | numericMul | numericDiv | numericMod | numericNeg | numericPos | numericAbs
  | numericFieldValueGet | numericIf
  deriving DecidableEq, Inhabited, Repr

namespace Kind

def label : Kind → String
  | and => "And"
  | or => "Or"
  | not => "Not"
  | everything => "All"
  | nothing => "None"
  | numericEquals => "NumericEquals"
  | numericGreaterThan => "NumericGreaterThan"
  | numericGreaterThanOrEqual => "NumericGreaterThanOrEqual"
  | numericLessThan => "NumericLessThan"
  | numericLessThanOrEqual => "NumericLessThanOrEqual"
  | fieldHasValue => "FieldHasValue"
  | booleanFieldEquals => "BooleanFieldEquals"
  | numericFieldEquals => "NumericFieldEquals"
  | numericFieldInRange => "NumericFieldInRange"
  | dateFieldEquals => "DateFieldEquals"
  | dateFieldInRange => "DateFieldInRange"
  | textFieldContains => "TextFieldContains"
  | priceSubFieldHasValue => "PriceSubFieldHasValue"
  | priceSubFieldEquals => "PriceSubFieldEquals"
  | priceSubFieldInRange => "PriceSubFieldInRange"
  | dateSubFieldHasValue => "DateSubFieldHasValue"
  | dateSubFieldEquals => "DateSubFieldEquals"
  | dateSubFieldInRange => "DateSubFieldInRange"
  | altCodeSubFieldHasValue => "AltCodeSubFieldHasValue"
  | altCodeSubFieldContains => "AltCodeSubFieldContains"
  | attributeSubFieldHasValue => "AttributeSubFieldHasValue"
  | attributeSubFieldContains => "AttributeSubFieldContains"
  | numericAdd => "NumericAdd"
  | numericSub => "NumericSub"
  | numericMul => "NumericMul"
  | numericDiv => "NumericDiv"
  | numericMod => "NumericMod"
  | numericNeg => "NumericNeg"
  | numericPos => "NumericPos"
  | numericAbs => "NumericAbs"
  | numericFieldValueGet => "NumericFieldValueGet"
  | numericIf => "NumericIf"

def booleanKinds : List Kind := [
  .and, .or, .not, .everything, .nothing,
  .numericEquals, .numericGreaterThan, .numericGreaterThanOrEqual, .numericLessThan,
  .numericLessThanOrEqual, .fieldHasValue, .booleanFieldEquals,
  .numericFieldEquals, .numericFieldInRange, .dateFieldEquals, .dateFieldInRange,
  .textFieldContains, .priceSubFieldHasValue, .priceSubFieldEquals, .priceSubFieldInRange,
  .dateSubFieldHasValue, .dateSubFieldEquals, .dateSubFieldInRange, .altCodeSubFieldHasValue,
  .altCodeSubFieldContains, .attributeSubFieldHasValue, .attributeSubFieldContains]

def numericKinds : List Kind := [
  .numericAdd, .numericSub, .numericMul, .numericDiv, .numericMod, .numericNeg, .numericPos,
  .numericAbs, .numericFieldValueGet, .numericIf]

def all : List Kind := booleanKinds ++ numericKinds

/-- Kinds of the nodes that denote a number. -/
def isNumeric (k : Kind) : Bool := numericKinds.contains k

def ofLabel? (s : String) : Option Kind := all.find? (·.label == s)

theorem mem_all (k : Kind) : k ∈ all := by cases k <;> decide

theorem ofLabel?_label (k : Kind) : ofLabel? k.label = some k := by cases k <;> decide +kernel

end Kind
end ScanCriteria
