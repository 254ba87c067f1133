import ScanCriteria.Log.Code

/-!
# Faults of wire tuples

A fault is a cause with a context, a text that says where or on what it arose. Causes fall into
eight classes, and the class gives the code under which the fault is logged.
-/
namespace ScanCriteria.Wire

inductive FaultClass where
  | structural | unknownTag | typeMismatch | arity | range | format | objectNullity | limit
  deriving DecidableEq, Inhabited, Repr

namespace FaultClass

def label : FaultClass → String
  | structural => "Structural"
  | unknownTag => "UnknownTag"
  | typeMismatch => "TypeMismatch"
  | arity => "Arity"
  | range => "Range"
  | format => "Format"
  | objectNullity => "ObjectNullity"
  | limit => "Limit"

def code : FaultClass → Code
  | structural => .structural
  | unknownTag => .unknownTag
  | typeMismatch => .typeMismatch
  | arity => .arity
  | range => .range
  | format => .format
  | objectNullity => .objectNullity
  | limit => .limitExceeded

end FaultClass

inductive Cause where
  | booleanTupleNotAnArray | tupleArrayIsZeroLength | tupleNodeTypeIsNotString
  | unknownBooleanTupleNodeType | unknownNumericTupleNodeType | unknownNumericField
  | unknownPriceSubField | unknownDateSubField | unknownAltCodeSubField | unknownAttributeSubField
  | unknownTextContainsAs
  | numericOperandTypeIsNotValid | numericValueIsNotNumber | dateValueIsNotString
  | textValueIsNotString | booleanValueIsNotBoolean | subFieldIsNotString
  | textContainsAsIsNotString | textContainsIgnoreCaseIsNotBoolean | namedParametersIsNotObject
  | logicalBooleanMissingOperands | logicalNotHasMoreThanOneOperand
  | numericComparisonDoesNotHave2Operands | constantBooleanHasParameters
  | binaryArithmeticDoesNotHave2Operands | unaryArithmeticDoesNotHave1Operand
  | numericIfTupleHasInvalidLength | fieldHasTooManyParameters | subFieldMissing
  | rangeMinAndMaxBothUndefined | namedAtCombinedWithRange | booleanFieldHasRange
  | dateValueIsNotIso8601
  | namedParametersObjectIsNull
  | tupleDepthLimitExceeded | tupleNodeCountLimitExceeded | tupleLengthLimitExceeded
  | numericIfArmLimitExceeded
  deriving DecidableEq, Inhabited, Repr

namespace Cause

def all : List Cause := [
  .booleanTupleNotAnArray, .tupleArrayIsZeroLength, .tupleNodeTypeIsNotString,
  .unknownBooleanTupleNodeType, .unknownNumericTupleNodeType, .unknownNumericField,
  .unknownPriceSubField, .unknownDateSubField, .unknownAltCodeSubField, .unknownAttributeSubField,
  .unknownTextContainsAs, .numericOperandTypeIsNotValid, .numericValueIsNotNumber,
  .dateValueIsNotString, .textValueIsNotString, .booleanValueIsNotBoolean, .subFieldIsNotString,
  .textContainsAsIsNotString, .textContainsIgnoreCaseIsNotBoolean, .namedParametersIsNotObject,
  .logicalBooleanMissingOperands, .logicalNotHasMoreThanOneOperand,
  .numericComparisonDoesNotHave2Operands, .constantBooleanHasParameters,
  .binaryArithmeticDoesNotHave2Operands, .unaryArithmeticDoesNotHave1Operand,
  .numericIfTupleHasInvalidLength, .fieldHasTooManyParameters, .subFieldMissing,
  .rangeMinAndMaxBothUndefined, .namedAtCombinedWithRange, .booleanFieldHasRange,
  .dateValueIsNotIso8601, .namedParametersObjectIsNull, .tupleDepthLimitExceeded,
  .tupleNodeCountLimitExceeded, .tupleLengthLimitExceeded, .numericIfArmLimitExceeded]

def label : Cause → String
  | booleanTupleNotAnArray => "BooleanTupleNotAnArray"
  | tupleArrayIsZeroLength => "TupleArrayIsZeroLength"
  | tupleNodeTypeIsNotString => "TupleNodeTypeIsNotString"
  | unknownBooleanTupleNodeType => "UnknownBooleanTupleNodeType"
  | unknownNumericTupleNodeType => "UnknownNumericTupleNodeType"
  | unknownNumericField => "UnknownNumericField"
  | unknownPriceSubField => "UnknownPriceSubField"
  | unknownDateSubField => "UnknownDateSubField"
  | unknownAltCodeSubField => "UnknownAltCodeSubField"
  | unknownAttributeSubField => "UnknownAttributeSubField"
  | unknownTextContainsAs => "UnknownTextContainsAs"
  | numericOperandTypeIsNotValid => "NumericOperandTypeIsNotValid"
  | numericValueIsNotNumber => "NumericValueIsNotNumber"
  | dateValueIsNotString => "DateValueIsNotString"
  | textValueIsNotString => "TextValueIsNotString"
  | booleanValueIsNotBoolean => "BooleanValueIsNotBoolean"
  | subFieldIsNotString => "SubFieldIsNotString"
  | textContainsAsIsNotString => "TextContainsAsIsNotString"
  | textContainsIgnoreCaseIsNotBoolean => "TextContainsIgnoreCaseIsNotBoolean"
  | namedParametersIsNotObject => "NamedParametersIsNotObject"
  | logicalBooleanMissingOperands => "LogicalBooleanMissingOperands"
  | logicalNotHasMoreThanOneOperand => "LogicalNotHasMoreThanOneOperand"
  | numericComparisonDoesNotHave2Operands => "NumericComparisonDoesNotHave2Operands"
  | constantBooleanHasParameters => "ConstantBooleanHasParameters"
  | binaryArithmeticDoesNotHave2Operands => "BinaryArithmeticDoesNotHave2Operands"
  | unaryArithmeticDoesNotHave1Operand => "UnaryArithmeticDoesNotHave1Operand"
  | numericIfTupleHasInvalidLength => "NumericIfTupleHasInvalidLength"
  | fieldHasTooManyParameters => "FieldHasTooManyParameters"
  | subFieldMissing => "SubFieldMissing"
  | rangeMinAndMaxBothUndefined => "RangeMinAndMaxBothUndefined"
  | namedAtCombinedWithRange => "NamedAtCombinedWithRange"
  | booleanFieldHasRange => "BooleanFieldHasRange"
  | dateValueIsNotIso8601 => "DateValueIsNotIso8601"
  | namedParametersObjectIsNull => "NamedParametersObjectIsNull"
  | tupleDepthLimitExceeded => "TupleDepthLimitExceeded"
  | tupleNodeCountLimitExceeded => "TupleNodeCountLimitExceeded"
  | tupleLengthLimitExceeded => "TupleLengthLimitExceeded"
  | numericIfArmLimitExceeded => "NumericIfArmLimitExceeded"

def message : Cause → String
  | booleanTupleNotAnArray => "boolean tuple is not an array"
  | tupleArrayIsZeroLength => "tuple array is zero length"
  | tupleNodeTypeIsNotString => "tuple node type is not a string"
  | unknownBooleanTupleNodeType => "unknown boolean tuple node type"
  | unknownNumericTupleNodeType => "unknown numeric tuple node type"
  | unknownNumericField => "unknown numeric field"
  | unknownPriceSubField => "unknown price sub-field"
  | unknownDateSubField => "unknown date sub-field"
  | unknownAltCodeSubField => "unknown alt code sub-field"
  | unknownAttributeSubField => "unknown attribute sub-field"
  | unknownTextContainsAs => "unknown text contains as"
  | numericOperandTypeIsNotValid => "numeric operand is not a number, numeric field or tuple"
  | numericValueIsNotNumber => "numeric value is not a number"
  | dateValueIsNotString => "date value is not a string"
  | textValueIsNotString => "text value is not a string"
  | booleanValueIsNotBoolean => "boolean field value is not a boolean"
  | subFieldIsNotString => "sub-field is not a string"
  | textContainsAsIsNotString => "text contains as is not a string"
  | textContainsIgnoreCaseIsNotBoolean => "text contains ignore case is not a boolean"
  | namedParametersIsNotObject => "named parameters is not an object"
  | logicalBooleanMissingOperands => "logical boolean missing operands"
  | logicalNotHasMoreThanOneOperand => "logical not has more than one operand"
  | numericComparisonDoesNotHave2Operands => "numeric comparison does not have 2 operands"
  | constantBooleanHasParameters => "constant boolean has parameters"
  | binaryArithmeticDoesNotHave2Operands => "binary arithmetic operation does not have 2 operands"
  | unaryArithmeticDoesNotHave1Operand => "unary arithmetic operation does not have 1 operand"
  | numericIfTupleHasInvalidLength => "numeric if tuple has invalid length"
  | fieldHasTooManyParameters => "field has too many parameters"
  | subFieldMissing => "sub-field missing"
  | rangeMinAndMaxBothUndefined => "range min and max both undefined"
  | namedAtCombinedWithRange => "named parameters combine At with Min or Max"
  | booleanFieldHasRange => "boolean field does not accept a range"
  | dateValueIsNotIso8601 => "date value is not ISO-8601"
  | namedParametersObjectIsNull => "named parameters object is null"
  | tupleDepthLimitExceeded => "tuple nesting depth limit exceeded"
  | tupleNodeCountLimitExceeded => "tuple node count limit exceeded"
  | tupleLengthLimitExceeded => "tuple length limit exceeded"
  | numericIfArmLimitExceeded => "numeric if arm limit exceeded"

def faultClass : Cause → FaultClass
  | booleanTupleNotAnArray | tupleArrayIsZeroLength | tupleNodeTypeIsNotString => .structural
  | unknownBooleanTupleNodeType | unknownNumericTupleNodeType | unknownNumericField
  | unknownPriceSubField | unknownDateSubField | unknownAltCodeSubField | unknownAttributeSubField
  | unknownTextContainsAs => .unknownTag
  | numericOperandTypeIsNotValid | numericValueIsNotNumber | dateValueIsNotString
  | textValueIsNotString | booleanValueIsNotBoolean | subFieldIsNotString
  | textContainsAsIsNotString | textContainsIgnoreCaseIsNotBoolean
  | namedParametersIsNotObject => .typeMismatch
  | logicalBooleanMissingOperands | logicalNotHasMoreThanOneOperand
  | numericComparisonDoesNotHave2Operands | constantBooleanHasParameters
  | binaryArithmeticDoesNotHave2Operands | unaryArithmeticDoesNotHave1Operand
  | numericIfTupleHasInvalidLength | fieldHasTooManyParameters | subFieldMissing => .arity
  | rangeMinAndMaxBothUndefined | namedAtCombinedWithRange | booleanFieldHasRange => .range
  | dateValueIsNotIso8601 => .format
  | namedParametersObjectIsNull => .objectNullity
  | tupleDepthLimitExceeded | tupleNodeCountLimitExceeded | tupleLengthLimitExceeded
  | numericIfArmLimitExceeded => .limit

def ofLabel? (s : String) : Option Cause := all.find? (·.label == s)

end Cause

structure Fault where
  cause : Cause
  context : String
  deriving DecidableEq, Inhabited, Repr

namespace Fault

def faultClass (f : Fault) : FaultClass := f.cause.faultClass

def code (f : Fault) : Code := f.faultClass.code

/-- The message of the cause, with the context after a colon if there is one. -/
def message (f : Fault) : String :=
  if f.context.isEmpty then f.cause.message else f.cause.message ++ ": " ++ f.context

/-- The message with its code and cause in front and the recommended action behind. -/
def advice (f : Fault) : String :=
  "[" ++ f.code ++ "/" ++ f.cause.label ++ "] " ++ f.message ++ ". " ++ (Code.entry f.code).action

end Fault
end ScanCriteria.Wire
