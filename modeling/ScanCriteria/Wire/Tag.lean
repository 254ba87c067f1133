import ScanCriteria.Criterion.Basic

/-!
# Tags of wire tuples

A tuple is an array headed by its tag. The tags of criteria are those of the connectives, the
comparisons and the constants, besides the tags of fields; those of numeric tuples are the tags of
the arithmetic operators and of choice.
-/
namespace ScanCriteria.Wire

inductive CriterionTag where
  | junction (op : Connective)
  | not
  | comparison (op : Comparison)
  | constant (holds : Bool)
  deriving DecidableEq, Repr

namespace CriterionTag

def all : List CriterionTag :=
  Connective.all.map junction ++ [not] ++ Comparison.all.map comparison
    ++ [constant true, constant false]

def label : CriterionTag → String
  | junction op => op.label
  | not => "Not"
  | comparison op => op.label
  | constant holds => if holds then "All" else "None"

def text : CriterionTag → String
  | comparison op => op.tag
  | t => t.label

def ofText? (s : String) : Option CriterionTag := all.find? (·.text == s)

theorem ofText?_text (t : CriterionTag) : ofText? t.text = some t := by
  cases t with
  | not => decide +kernel
  | junction op => cases op <;> decide +kernel
  | comparison op => cases op <;> decide +kernel
  | constant holds => cases holds <;> decide +kernel

theorem text_of_ofText? {s : String} {t : CriterionTag} (h : ofText? s = some t) : t.text = s := by
  simpa using List.find?_some h

end CriterionTag

inductive OperandTag where
  | binary (op : Binary)
  | unary (op : Unary)
  | choice
  deriving DecidableEq, Repr

namespace OperandTag

def all : List OperandTag := Binary.all.map binary ++ Unary.all.map unary ++ [choice]

def label : OperandTag → String
  | binary op => op.label
  | unary op => op.label
  | choice => "If"

def text : OperandTag → String
  | binary op => op.tag
  | t => t.label

def ofText? (s : String) : Option OperandTag := all.find? (·.text == s)

theorem ofText?_text (t : OperandTag) : ofText? t.text = some t := by
  cases t with
  | choice => decide +kernel
  | binary op => cases op <;> decide +kernel
  | unary op => cases op <;> decide +kernel

theorem text_of_ofText? {s : String} {t : OperandTag} (h : ofText? s = some t) : t.text = s := by
  simpa using List.find?_some h

end OperandTag

def atKey : String := "At"
def minKey : String := "Min"
def maxKey : String := "Max"
def asKey : String := "As"
def ignoreCaseKey : String := "IgnoreCase"

end ScanCriteria.Wire
