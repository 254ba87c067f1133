/-!
# Operators of criteria

Connectives join criteria, comparisons join two numbers to a criterion, and arithmetic operators
take one or two numbers to a number. An operator has a label and the tag that heads its tuples.
-/
namespace ScanCriteria

inductive Connective where
  | and | or
  deriving DecidableEq, Inhabited, Repr

inductive Comparison where
  | equals | greaterThan | greaterThanOrEqual | lessThan | lessThanOrEqual
  deriving DecidableEq, Inhabited, Repr

inductive Binary where
  | add | sub | mul | div | mod
  deriving DecidableEq, Inhabited, Repr

inductive Unary where
  | neg | pos | abs
  deriving DecidableEq, Inhabited, Repr

namespace Connective

def all : List Connective := [and, or]

def label : Connective → String
  | and => "And"
  | or => "Or"

end Connective

namespace Comparison

def all : List Comparison := [equals, greaterThan, greaterThanOrEqual, lessThan, lessThanOrEqual]

def label : Comparison → String
  | equals => "Equals"
  | greaterThan => "GreaterThan"
  | greaterThanOrEqual => "GreaterThanOrEqual"
  | lessThan => "LessThan"
  | lessThanOrEqual => "LessThanOrEqual"

def tag : Comparison → String
  | equals => "="
  | greaterThan => ">"
  | greaterThanOrEqual => ">="
  | lessThan => "<"
  | lessThanOrEqual => "<="

end Comparison

namespace Binary

def all : List Binary := [add, sub, mul, div, mod]

def label : Binary → String
  | add => "Add"
  | sub => "Sub"
  | mul => "Mul"
  | div => "Div"
  | mod => "Mod"

def tag : Binary → String
  | add => "+"
  | sub => "-"
  | mul => "*"
  | div => "/"
  | mod => "%"

end Binary

namespace Unary

def all : List Unary := [neg, pos, abs]

def label : Unary → String
  | neg => "Neg"
  | pos => "Pos"
  | abs => "Abs"

end Unary
end ScanCriteria
