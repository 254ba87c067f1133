import ScanCriteria.Wire.Literal

/-!
# Field tuples

A tuple headed by the tag of a field is a test of it. What the parameters mean depends on the
field's type and on their number. Plain fields take a value, bounds by position or an object of
named parameters; a subbed field takes the name of a sub-field first, which `Price` and `Date` may
leave out.
-/
namespace ScanCriteria.Wire
open Json

def tooManyParameters (tag : String) (n : Nat) : Except Fault α :=
  fault .fieldHasTooManyParameters (tag ++ " has " ++ toString n ++ " parameters")

namespace PlainField

/-- Without parameters the field has to be true. -/
def boolean (f : Field) (tag : String) : List Value → Except Fault FieldTest
  | [] => .ok (.boolean f true)
  | [v] =>
    match v with
    | .object _ | .null => do
      match ← Named.targetOf Literal.boolean tag v with
      | .equals b => return .boolean f b
      | .inRange _ => fault .booleanFieldHasRange tag
    | v => (Literal.boolean tag v).map (.boolean f)
  | params => tooManyParameters tag params.length

def numeric (f : Field) (tag : String) : List Value → Except Fault FieldTest
  | [] => .ok (.hasValue f)
  | [.number n] => .ok (.numeric f (.equals n.toDouble))
  | [v] => (Named.targetOf Literal.number tag v).map (.numeric f)
  | [min, max] => (positionalRange Literal.number tag min max).map (.numeric f)
  | params => tooManyParameters tag params.length

def date (f : Field) (tag : String) : List Value → Except Fault FieldTest
  | [] => .ok (.hasValue f)
  | [.string s] => (Literal.moment tag (.string s)).map fun a => .date f (.equals a)
  | [v] => (Named.targetOf Literal.moment tag v).map (.date f)
  | [min, max] => (positionalRange Literal.moment tag min max).map (.date f)
  | params => tooManyParameters tag params.length

end PlainField

/-- The text to find: alone, with an object of options, or with both options by position. An object
of options is checked before the text. `parameters` is the number to complain of if there are
more. -/
def textMatch (tag : String) (parameters : Nat) : List Value → Except Fault TextMatch
  | [v] => do
    let s ← Literal.text tag v
    return ⟨s, .anywhere, false⟩
  | [v, options] => do
    let (anchor, ignoreCase) ← Named.textOptions tag options
    let s ← Literal.text tag v
    return ⟨s, anchor, ignoreCase⟩
  | [v, anchor, ignoreCase] => do
    let s ← Literal.text tag v
    let anchor ← Literal.anchor tag anchor
    let ignoreCase ← Literal.ignoreCase tag ignoreCase
    return ⟨s, anchor, ignoreCase⟩
  | _ => tooManyParameters tag parameters

namespace PlainField

def text (f : Field) (tag : String) : List Value → Except Fault FieldTest
  | [] => .ok (.hasValue f)
  | params => (textMatch tag params.length params).map (.text f)

end PlainField

def plainField (f : Field) (tag : String) (params : List Value) : Except Fault FieldTest :=
  match f.dataType with
  | .boolean => PlainField.boolean f tag params
  | .numeric => PlainField.numeric f tag params
  | .date => PlainField.date f tag params
  | .text => PlainField.text f tag params

/-- The sub-field that a value names. -/
def subField (ofText? : String → Option α) (unknown : Cause) (tag : String) :
    Value → Except Fault α
  | .string s =>
    match ofText? s with
    | some a => .ok a
    | none => fault unknown s
  | v => faultAt .subFieldIsNotString tag v

namespace SubbedField

def priceSub (tag : String) (v : Value) : Except Fault PriceSubField :=
  subField PriceSubField.ofLabel? .unknownPriceSubField tag v

def dateSub (tag : String) (v : Value) : Except Fault DateSubField :=
  subField DateSubField.ofLabel? .unknownDateSubField tag v

def priceTarget (tag : String) : Value → Except Fault (Target Double)
  | .number n => .ok (.equals n.toDouble)
  | v => Named.targetOf Literal.number tag v

def dateTarget (tag : String) : Value → Except Fault (Target Moment)
  | .string s => (Literal.moment tag (.string s)).map .equals
  | v => Named.targetOf Literal.moment tag v

/-- A lone string is the name of a sub-field. -/
def price (tag : String) : List Value → Except Fault FieldTest
  | [] => .ok (.price .last none)
  | [.string s] => (priceSub tag (.string s)).map fun sub => .price sub none
  | [v] => (priceTarget tag v).map fun t => .price .last (some t)
  | [sub, v] => do
    let sub ← priceSub tag sub
    let t ← priceTarget tag v
    return .price sub (some t)
  | [sub, min, max] => do
    let sub ← priceSub tag sub
    let t ← positionalRange Literal.number tag min max
    return .price sub (some t)
  | params => tooManyParameters tag params.length

/-- A lone string is a sub-field if it names one, else a date. -/
def dated (tag : String) : List Value → Except Fault FieldTest
  | [] => .ok (.dated .dividend none)
  | [v] =>
    match v with
    | .string s =>
      match DateSubField.ofLabel? s with
      | some sub => .ok (.dated sub none)
      | none => (dateTarget tag v).map fun t => .dated .dividend (some t)
    | v => (dateTarget tag v).map fun t => .dated .dividend (some t)
  | [sub, v] => do
    let sub ← dateSub tag sub
    let t ← dateTarget tag v
    return .dated sub (some t)
  | [sub, min, max] => do
    let sub ← dateSub tag sub
    let t ← positionalRange Literal.moment tag min max
    return .dated sub (some t)
  | params => tooManyParameters tag params.length

/-- The sub-field may not be left out; after it no parameter asks only for a value. -/
def named (ofText? : String → Option α) (unknown : Cause) (test : α → Option TextMatch → FieldTest)
    (tag : String) : List Value → Except Fault FieldTest
  | [] => fault .subFieldMissing tag
  | sub :: rest => do
    let sub ← subField ofText? unknown tag sub
    if rest.isEmpty then return test sub none
    else
      let p ← textMatch tag (rest.length + 1) rest
      return test sub (some p)

def altCode : String → List Value → Except Fault FieldTest :=
  named AltCode.ofTag? .unknownAltCodeSubField .altCode

def attributes : String → List Value → Except Fault FieldTest :=
  named Attribute.ofTag? .unknownAttributeSubField .attributes

end SubbedField

/-- The test that a tag and its parameters make. -/
def fieldTest (tag : String) (params : List Value) : Except Fault FieldTest :=
  match Field.ofTag? tag with
  | none => fault .unknownBooleanTupleNodeType tag
  | some .price => SubbedField.price tag params
  | some .date => SubbedField.dated tag params
  | some .altCode => SubbedField.altCode tag params
  | some .attributes => SubbedField.attributes tag params
  | some f => plainField f tag params

end ScanCriteria.Wire
