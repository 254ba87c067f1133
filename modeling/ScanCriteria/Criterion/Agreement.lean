import ScanCriteria.Criterion.Basic

/-!
# Agreement of criteria

Two criteria agree when they are built alike, their numbers are numerically equal and their moments
are the same instants. A tree that holds a NaN does not agree with itself.
-/
namespace ScanCriteria

def agreesOption (r : α → α → Bool) : Option α → Option α → Bool
  | none, none => true
  | some a, some b => r a b
  | _, _ => false

def Bounds.agrees (r : α → α → Bool) (a b : Bounds α) : Bool :=
  agreesOption r a.min b.min && agreesOption r a.max b.max

def Target.agrees (r : α → α → Bool) : Target α → Target α → Bool
  | equals x, equals y => r x y
  | inRange a, inRange b => a.agrees r b
  | _, _ => false

def FieldTest.agrees : FieldTest → FieldTest → Bool
  | hasValue f, hasValue g => f == g
  | boolean f a, boolean g b => f == g && a == b
  | numeric f a, numeric g b => f == g && a.agrees Double.agrees b
  | date f a, date g b => f == g && a.agrees Moment.agrees b
  | text f a, text g b => f == g && a == b
  | price s a, price t b => s == t && agreesOption (Target.agrees Double.agrees) a b
  | dated s a, dated t b => s == t && agreesOption (Target.agrees Moment.agrees) a b
  | altCode s a, altCode t b => s == t && a == b
  | attributes s a, attributes t b => s == t && a == b
  | _, _ => false

mutual

def Criterion.agrees : Criterion → Criterion → Bool
  | .constant a, .constant b => a == b
  | .not c, .not d => c.agrees d
  | .junction p c cs, .junction q d ds => p == q && c.agrees d && Criterion.agreesAll cs ds
  | .comparison p a b, .comparison q c d => p == q && a.agrees c && b.agrees d
  | .field s, .field t => s.agrees t
  | _, _ => false

def Operand.agrees : Operand → Operand → Bool
  | .literal x, .literal y => x.agrees y
  | .field f, .field g => f == g
  | .binary p a b, .binary q c d => p == q && a.agrees c && b.agrees d
  | .unary p a, .unary q b => p == q && a.agrees b
  | .choice a as a', .choice b bs b' => a.agrees b && Arm.agreesAll as bs && a'.agrees b'
  | _, _ => false

def Arm.agrees : Arm → Arm → Bool
  | .mk c a, .mk d b => c.agrees d && a.agrees b

def Criterion.agreesAll : List Criterion → List Criterion → Bool
  | [], [] => true
  | c :: cs, d :: ds => c.agrees d && Criterion.agreesAll cs ds
  | _, _ => false

def Arm.agreesAll : List Arm → List Arm → Bool
  | [], [] => true
  | a :: as, b :: bs => a.agrees b && Arm.agreesAll as bs
  | _, _ => false

end
end ScanCriteria
