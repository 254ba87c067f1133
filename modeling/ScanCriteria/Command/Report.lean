import ScanCriteria.Criterion.Agreement
import ScanCriteria.Criterion.Document
import ScanCriteria.Session.Conversion

/-!
# Reports on inputs

Checking an input parses it; the round trip also writes the criterion and parses it again, and is
good if the two criteria agree. A report is shown as a line of JSON or as text, in which only the
status line is not indented.
-/
namespace ScanCriteria
open Json

structure Report where
  index : Nat
  ok : Bool
  criterion : Option Criterion
  wire : Option Value
  roundTrip : Option Bool
  trail : String
  error : Option String

namespace Report

def ofCheck (index : Nat) (v : Value) : SessionM Report := do
  match ← Session.parse v with
  | .ok p => return ⟨index, true, some p.criterion, none, none, p.progress.trail, none⟩
  | .error f =>
    let advice ← Session.advice f
    return ⟨index, false, none, none, none, f.progress.trail, some advice⟩

/-- The verdict on the second parse, and the advice if it failed. -/
def compare (c : Criterion) (wire : Value) : SessionM (Bool × Option String) := do
  match ← Session.parse wire with
  | .ok p => return (p.criterion.agrees c, none)
  | .error f => return (false, some (← Session.advice f))

def logVerdict (index : Nat) (same : Bool) : SessionM Unit :=
  let context := [("index", toString index)]
  if same then Session.logSuccess .roundTripVerified "Round trip verified" context
  else Session.logError .roundTripMismatch "Round trip changed the tree" context

def ofRoundTrip (index : Nat) (v : Value) : SessionM Report := do
  let report ← ofCheck index v
  match report.criterion with
  | none => return report
  | some c =>
    match ← Session.serialize c with
    | .error m => return { report with ok := false, error := some m.message }
    | .ok wire =>
      let (same, error) ← compare c wire
      logVerdict index same
      return { report with ok := same, wire := some wire, roundTrip := some same, error := error }

def optional (key : String) (f : α → Value) : Option α → Entries Value
  | none => []
  | some x => [(key, f x)]

/-- Parts that a report does not have are left out. -/
def document (r : Report) : Value :=
  .object ([("index", .ofNat r.index), ("ok", .bool r.ok)]
    ++ optional "node" Criterion.document r.criterion ++ optional "wire" id r.wire
    ++ optional "round_trip" .bool r.roundTrip ++ [("trail", .string r.trail)]
    ++ optional "error" .string r.error)

/-- A carriage return in front of a line feed belongs to the line end. -/
def dropReturn : List Char → List Char
  | '\x0d' :: cs => cs
  | cs => cs

/-- The lines of a text after `current`, which is reversed. -/
def linesFrom (current : List Char) : List Char → List String
  | [] => if current.isEmpty then [] else [String.ofList current.reverse]
  | '\n' :: cs => String.ofList (dropReturn current).reverse :: linesFrom [] cs
  | c :: cs => linesFrom (c :: current) cs

def lines (s : String) : List String := linesFrom [] s.toList

def line (s : String) : String := s ++ "\n"

def indented (indent : String) (s : String) : String :=
  String.join ((lines s).map fun l => line (indent ++ l))

def statusLine (r : Report) : String :=
  line ("[" ++ (if r.ok then "OK" else "FAILED") ++ "] input " ++ toString r.index)

def optionText (f : α → String) : Option α → String
  | none => ""
  | some x => f x

/-- The error, or else the trail. -/
def explanation (r : Report) : String :=
  match r.error with
  | some e => indented "  " e
  | none => if r.trail.isEmpty then "" else line "  trail:" ++ indented "    " r.trail

def text (r : Report) : String :=
  r.statusLine ++ optionText (fun c => line ("  node: " ++ c.kind.label)) r.criterion
    ++ optionText (fun w => line ("  wire: " ++ Value.text w)) r.wire ++ r.explanation

def jsonLine (r : Report) : String := line r.document.text

end Report
end ScanCriteria
