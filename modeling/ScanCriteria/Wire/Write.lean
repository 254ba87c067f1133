import ScanCriteria.Criterion.Basic
import ScanCriteria.Json.Value
import ScanCriteria.Wire.Tag

/-!
# The wire form of criteria

`Criterion.wire` and `Operand.wire` write a tree as tuples. Field tests are written with all their
parts: sub-fields are never left out, bounds stand in an object without those that are absent, and
both options of a text are given. A number that is not finite is written as `null`.
-/
namespace ScanCriteria
open Json Wire

def headed (tag : String) (params : List Value) : Value := .array (.string tag :: params)

def Moment.wire (a : Moment) : Value := .string a.text

def Bounds.wire (f : α → Value) (b : Bounds α) : Value :=
  .object ((b.max.map fun x => (maxKey, f x)).toList ++ (b.min.map fun x => (minKey, f x)).toList)

def Target.wire (f : α → Value) : Target α → Value
  | equals x => f x
  | inRange b => b.wire f

def TextMatch.wire (p : TextMatch) : List Value :=
  [.string p.value, .object [(asKey, .string p.anchor.label), (ignoreCaseKey, .bool p.ignoreCase)]]

def wireTarget (f : α → Value) : Option (Target α) → List Value
  | none => []
  | some t => [t.wire f]

def wirePattern : Option TextMatch → List Value
  | none => []
  | some p => p.wire

def FieldTest.wire : FieldTest → Value
  | hasValue f => headed f.tag []
  | boolean f b => headed f.tag [.bool b]
  | numeric f t => headed f.tag [t.wire .ofDouble]
  | date f t => headed f.tag [t.wire Moment.wire]
  | text f p => headed f.tag p.wire
  | price s t => headed Field.price.tag (.string s.label :: wireTarget .ofDouble t)
  | dated s t => headed Field.date.tag (.string s.label :: wireTarget Moment.wire t)
  | altCode s p => headed Field.altCode.tag (.string s.tag :: wirePattern p)
  | attributes s p => headed Field.attributes.tag (.string s.tag :: wirePattern p)

mutual

def Criterion.wire : Criterion → Value
  | .constant b => headed (CriterionTag.constant b).text []
  | .not c => headed CriterionTag.not.text [c.wire]
  | .junction op c cs => headed (CriterionTag.junction op).text (c.wire :: Criterion.wireAll cs)
  | .comparison op a b => headed (CriterionTag.comparison op).text [a.wire, b.wire]
  | .field t => t.wire

/-- A literal is a number and a field its tag. -/
def Operand.wire : Operand → Value
  | .literal x => .ofDouble x
  | .field f => .string f.tag
  | .binary op a b => headed (OperandTag.binary op).text [a.wire, b.wire]
  | .unary op a => headed (OperandTag.unary op).text [a.wire]
  | .choice a as b => headed OperandTag.choice.text (a.wireOnto (Arm.wireAll as (b.wireOnto [])))

/-- Puts the condition and the value of an arm in front of `rest`. -/
def Arm.wireOnto (rest : List Value) : Arm → List Value
  | .mk c a => c.wire :: a.wire :: rest

def Criterion.wireAll : List Criterion → List Value
  | [] => []
  | c :: cs => c.wire :: Criterion.wireAll cs

def Arm.wireAll : List Arm → List Value → List Value
  | [], rest => rest
  | a :: as, rest => a.wireOnto (Arm.wireAll as rest)

end
end ScanCriteria
