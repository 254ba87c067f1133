import ScanCriteria.Wire.Write

/-!
# Serializing criteria

A criterion can be serialized when every field in it plays a role that it has. Whatever keeps a tree
from the wire is a remark: a misplaced field, or a literal that is not finite. `Criterion.remarks`
lists them from left to right, and serializing stops at the first misplaced field; the literals
before it have been lost by then.
-/
namespace ScanCriteria

/-- What a node takes a field for. -/
inductive Role where
  | ofGroup (g : FieldGroup)
  /-- Any field but a subbed one. -/
  | plain
  deriving DecidableEq, Repr

def Role.label : Role → String
  | ofGroup g => g.label
  | plain => "plain"

/-- Whether a field has a role. -/
def Field.plays (f : Field) : Role → Bool
  | .ofGroup g => f.group == g
  | .plain => f.isPlain

/-- A field in a role that it does not have. -/
structure Misplaced where
  field : Field
  role : Role
  deriving DecidableEq, Repr

def Misplaced.message (m : Misplaced) : String :=
  m.field.label ++ " is not a " ++ m.role.label ++ " field"

/-- The tag of a field in a role. -/
def Field.tagAs (r : Role) (f : Field) : Except Misplaced String :=
  if f.plays r then .ok f.tag else .error ⟨f, r⟩

namespace Wire
open Json

inductive Remark where
  | misplaced (m : Misplaced)
  | lost (x : Double)
  deriving DecidableEq, Repr

namespace Remark

def onField (r : Role) (f : Field) : List Remark := if f.plays r then [] else [misplaced ⟨f, r⟩]

def onNumber (x : Double) : List Remark := if x.isFinite then [] else [lost x]

def onOption (f : α → List Remark) : Option α → List Remark
  | none => []
  | some x => f x

def onTarget : Target Double → List Remark
  | .equals x => onNumber x
  | .inRange b => onOption onNumber b.min ++ onOption onNumber b.max

end Remark
end Wire

open Wire

def FieldTest.remarks : FieldTest → List Remark
  | hasValue f => Remark.onField .plain f
  | boolean f _ => Remark.onField (.ofGroup .boolean) f
  | numeric f t => Remark.onField (.ofGroup .numeric) f ++ Remark.onTarget t
  | date f _ => Remark.onField (.ofGroup .date) f
  | text f _ => Remark.onField (.ofGroup .text) f
  | price _ t => Remark.onOption Remark.onTarget t
  | _ => []

mutual

def Criterion.remarks : Criterion → List Remark
  | .constant _ => []
  | .not c => c.remarks
  | .junction _ c cs => c.remarks ++ Criterion.remarksAll cs
  | .comparison _ a b => a.remarks ++ b.remarks
  | .field t => t.remarks

def Operand.remarks : Operand → List Remark
  | .literal x => Remark.onNumber x
  | .field f => Remark.onField (.ofGroup .numeric) f
  | .binary _ a b => a.remarks ++ b.remarks
  | .unary _ a => a.remarks
  | .choice a as b => a.remarks ++ Arm.remarksAll as ++ b.remarks

def Arm.remarks : Arm → List Remark
  | .mk c a => c.remarks ++ a.remarks

def Criterion.remarksAll : List Criterion → List Remark
  | [] => []
  | c :: cs => c.remarks ++ Criterion.remarksAll cs

def Arm.remarksAll : List Arm → List Remark
  | [] => []
  | a :: as => a.remarks ++ Arm.remarksAll as

end

namespace Wire
open Json

/-- What serializing gives: the literals lost on the way, and a value or the field that is in the
way. -/
structure Serialized where
  lost : List Double
  result : Except Misplaced Value

/-- Goes through remarks up to the first misplaced field. -/
def serializeAs (wire : Value) : List Remark → Serialized
  | [] => ⟨[], .ok wire⟩
  | .misplaced m :: _ => ⟨[], .error m⟩
  | .lost x :: rest =>
    let s := serializeAs wire rest
    ⟨x :: s.lost, s.result⟩

def serialize (c : Criterion) : Serialized := serializeAs c.wire c.remarks

def serializeOperand (a : Operand) : Serialized := serializeAs a.wire a.remarks

end Wire
end ScanCriteria
