import ScanCriteria.Command.Arguments
import ScanCriteria.Command.Report
import ScanCriteria.Json.Reader

/-!
# Running a command

`Command.run` takes the inputs of a file in order and writes a report on each. Each input is at work
in the session while it is converted, and the report is written afterwards. A report that the reader
does not take ends the run.
-/
namespace ScanCriteria
open Json

inductive RunFault where
  | read (file reason : String)
  | json (file : String)
  | notABatch (file : String)
  | output (reason : String)
  deriving DecidableEq, Repr

namespace RunFault

def message : RunFault → String
  | read file reason => "failed to read " ++ file ++ ": " ++ reason
  | json file => file ++ " is not valid JSON"
  | notABatch file => file ++ " is not a JSON array of tuples"
  | output reason => "failed to write report: " ++ reason

def code : RunFault → Code
  | read _ _ => .inputRead
  | json _ | notABatch _ => .inputJson
  | output _ => .outputWrite

end RunFault

structure RunSummary where
  total : Nat
  failed : Nat
  deriving DecidableEq, Repr

namespace RunSummary

def empty : RunSummary := ⟨0, 0⟩

/-- Counts a report. -/
def add (r : Report) (s : RunSummary) : RunSummary :=
  ⟨s.total + 1, if r.ok then s.failed else s.failed + 1⟩

def exitCode (s : RunSummary) : UInt8 := if s.failed = 0 then 0 else 1

def text (s : RunSummary) : String :=
  Report.line (toString (s.total - s.failed) ++ " of " ++ toString s.total ++ " inputs passed")

end RunSummary

namespace Command

/-- Arrays and objects that a file may have open at once. -/
def fileDepth : Nat := 127

/-- The bytes of a file, or why it could not be read. -/
abbrev Contents := Except String ByteArray

def inputs (file : String) (batch : Bool) (contents : Contents) : Except RunFault (List Value) :=
  match contents with
  | .error reason => .error (.read file reason)
  | .ok bytes =>
    match String.fromUTF8? bytes with
    | none => .error (.read file "stream did not contain valid UTF-8")
    | some text =>
      match Value.read? fileDepth text, batch with
      | none, _ => .error (.json file)
      | some v, false => .ok [v]
      | some (.array vs), true => .ok vs
      | some _, true => .error (.notABatch file)

/-- What a reader sees of the first `n` bytes of a text; a character cut short shows as U+FFFD. -/
def shownPrefix (n : Nat) (s : String) : String :=
  let whole := String.ofList (takeBytes n s.toList)
  if whole.utf8ByteSize < n then whole.push '\ufffd' else whole

/-- Writes to the reader of the report; tells whether all was taken. -/
def write (s : String) : SessionM Bool := do
  match (← get).room with
  | none =>
    Session.emit (.report s)
    return true
  | some n =>
    if s.utf8ByteSize ≤ n then
      Session.emit (.report s)
      modify fun t => { t with room := some (n - s.utf8ByteSize) }
      return true
    else
      Session.emit (.report (shownPrefix n s))
      modify fun t => { t with room := some 0 }
      return false

def closed : RunFault := .output "closed"

/-- The input at an index, as events name it. -/
def context (i : Invocation) (index : Nat) : InputContext :=
  ⟨i.file, if i.batch then some index else none⟩

def conversion (i : Invocation) (index : Nat) (v : Value) : SessionM Report :=
  match i.command with
  | .check => Report.ofCheck index v
  | .roundTrip => Report.ofRoundTrip index v

/-- The report on one input, which is at work meanwhile. -/
def report (i : Invocation) (index : Nat) (v : Value) : SessionM Report :=
  Session.withInput (context i index) (conversion i index v)

def reportText (i : Invocation) (r : Report) : String := if i.json then r.jsonLine else r.text

/-- Reports on inputs, counted from `index`. -/
def reports (i : Invocation) (index : Nat) (s : RunSummary) :
    List Value → SessionM (Except RunFault RunSummary)
  | [] => return .ok s
  | v :: vs => do
    let r ← report i index v
    if ← write (reportText i r) then reports i (index + 1) (s.add r) vs
    else return .error closed

/-- Reports on all inputs; unless the reports are JSON their counts end the output. -/
def convert (i : Invocation) (vs : List Value) : SessionM (Except RunFault RunSummary) := do
  match ← reports i 0 .empty vs with
  | .error f => return .error f
  | .ok s =>
    if i.json then return .ok s
    else if ← write s.text then return .ok s
    else return .error closed

def run (i : Invocation) (contents : Contents) : SessionM (Except RunFault RunSummary) := do
  Session.logInfo "Loading criteria" [("file", i.file), ("batch", Event.boolText i.batch)]
  match inputs i.file i.batch contents with
  | .error f =>
    Session.logError f.code f.message []
    return .error f
  | .ok vs => convert i vs

end Command
end ScanCriteria
