import ScanCriteria.Calendar.Reading
import ScanCriteria.Criterion.Basic
import ScanCriteria.Json.Text
import ScanCriteria.Wire.Fault
import ScanCriteria.Wire.Tag

/-!
# Literals and named parameters

Parameters of a field tuple are literals, or objects that name their values. A key whose value is
`null` counts as missing, and unknown keys are ignored. Every fault names the tag of the tuple.
-/
namespace ScanCriteria.Wire
open Json

/-- The text of a value in a fault: all of it up to 64 characters, else the first 61 and dots. -/
def describe (v : Value) : String :=
  let text := v.text
  if 64 < text.length then String.ofList (text.toList.take 61) ++ "..." else text

def fault (cause : Cause) (context : String) : Except Fault α := .error ⟨cause, context⟩

/-- A fault about a value of the tuple headed by `tag`. -/
def faultAt (cause : Cause) (tag : String) (v : Value) : Except Fault α :=
  fault cause (tag ++ " " ++ describe v)

/-- A fault about a string, which the context quotes as it is. -/
def faultQuoting (cause : Cause) (tag text : String) : Except Fault α :=
  fault cause (tag ++ " \"" ++ text ++ "\"")

namespace Literal

def number (tag : String) : Value → Except Fault Double
  | .number n => .ok n.toDouble
  | v => faultAt .numericValueIsNotNumber tag v

def moment (tag : String) : Value → Except Fault Moment
  | .string s =>
    match Moment.read? s with
    | some a => .ok a
    | none => faultQuoting .dateValueIsNotIso8601 tag s
  | v => faultAt .dateValueIsNotString tag v

def text (tag : String) : Value → Except Fault String
  | .string s => .ok s
  | v => faultAt .textValueIsNotString tag v

def boolean (tag : String) : Value → Except Fault Bool
  | .bool b => .ok b
  | v => faultAt .booleanValueIsNotBoolean tag v

def anchor (tag : String) : Value → Except Fault Anchor
  | .string s =>
    match Anchor.ofLabel? s with
    | some a => .ok a
    | none => faultQuoting .unknownTextContainsAs tag s
  | v => faultAt .textContainsAsIsNotString tag v

def ignoreCase (tag : String) : Value → Except Fault Bool
  | .bool b => .ok b
  | v => faultAt .textContainsIgnoreCaseIsNotBoolean tag v

end Literal

namespace Named

def object (tag : String) : Value → Except Fault (Entries Value)
  | .object es => .ok es
  | .null => fault .namedParametersObjectIsNull tag
  | v => faultAt .namedParametersIsNotObject tag v

/-- The first value under a key that is not `null`. -/
def find? (key : String) : Entries Value → Option Value
  | [] => none
  | (k, v) :: rest => if k = key ∧ v.isNull = false then some v else find? key rest

/-- An absent value stays absent. -/
def optional (read : Value → Except Fault α) : Option Value → Except Fault (Option α)
  | none => .ok none
  | some v => (read v).map some

/-- `At` alone is a value; `Min` and `Max`, or one of them, are bounds. -/
def target (read : String → Value → Except Fault α) (tag : String) (es : Entries Value) :
    Except Fault (Target α) :=
  match find? atKey es, find? minKey es, find? maxKey es with
  | some v, none, none => (read tag v).map .equals
  | some _, _, _ => fault .namedAtCombinedWithRange tag
  | none, none, none => fault .rangeMinAndMaxBothUndefined tag
  | none, min, max => do
    let min ← optional (read tag) min
    let max ← optional (read tag) max
    return .inRange ⟨min, max⟩

/-- The target that a value names, which has to be an object. -/
def targetOf (read : String → Value → Except Fault α) (tag : String) (v : Value) :
    Except Fault (Target α) := do
  let es ← object tag v
  target read tag es

/-- The anchor and the case rule of a text, each with its default. -/
def textOptions (tag : String) (v : Value) : Except Fault (Anchor × Bool) := do
  let es ← object tag v
  let anchor ← optional (Literal.anchor tag) (find? asKey es)
  let ignoreCase ← optional (Literal.ignoreCase tag) (find? ignoreCaseKey es)
  return (anchor.getD .anywhere, ignoreCase.getD false)

end Named

/-- A bound given by position, where `null` means that it is absent. -/
def positionalBound (read : Value → Except Fault α) (v : Value) : Except Fault (Option α) :=
  Named.optional read (if v.isNull then none else some v)

def positionalRange (read : String → Value → Except Fault α) (tag : String) (min max : Value) :
    Except Fault (Target α) :=
  if min.isNull ∧ max.isNull then fault .rangeMinAndMaxBothUndefined tag
  else do
    let min ← positionalBound (read tag) min
    let max ← positionalBound (read tag) max
    return .inRange ⟨min, max⟩

end ScanCriteria.Wire
