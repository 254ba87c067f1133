import ScanCriteria.Command.Run
import ScanCriteria.Terminal

/-!
# The program

`Program.run` is the whole program but for the reading of the file and the printing: from arguments
and environment to what is put out and the exit code. Log records go to standard error, one line
each and without terminal control, unless the environment turns them off.
-/
namespace ScanCriteria.Program

/-- The name under which records are logged. -/
def recordTarget : String := "zenith_scan"

def paddedLevel (l : Level) : String := l.text.pushn ' ' (5 - l.text.length)

/-- Further lines of a record are indented. -/
def indentLines (s : String) : String :=
  s.foldl (fun out c => if c = '\n' then out ++ "\n    " else out.push c) ""

def recordLine (stamp : String) (l : Level) (text : String) : String :=
  "[" ++ stamp ++ " " ++ paddedLevel l ++ " " ++ recordTarget ++ "] " ++ indentLines text

/-- The record as it is printed; a sequence that does not end swallows the end of the line. -/
def recordText (stamp : String) (l : Level) (text : String) : String :=
  Terminal.plain (recordLine stamp l text ++ "\n")

/-- What the program prints, in order: pieces of text for standard output and standard error. -/
inductive Print where
  | out (text : String)
  | err (text : String)
  deriving DecidableEq

/-- Which records are shown. -/
structure RecordFilter where
  enabled : Bool
  minimum : Level

def RecordFilter.admits (f : RecordFilter) (l : Level) : Bool := f.enabled && f.minimum.admits l

def print? (f : RecordFilter) (stamp : String) : Emission → Option Print
  | .stdout line => some (.out (line ++ "\n"))
  | .stderr line => some (.err (line ++ "\n"))
  | .report text => some (.out text)
  | .record l text => if f.admits l then some (.err (recordText stamp l text)) else none

structure Outcome where
  prints : List Print
  exitCode : UInt8

/-- Installs preferences and service. -/
def install (p : Preferences) : SessionM (Except InstallFault Unit) := do
  match ← Session.installPreferences p with
  | .error f => return .error f
  | .ok () => Session.initLogging

def body (i : Invocation) (p : Preferences) (contents : Command.Contents) : SessionM UInt8 := do
  match ← install p with
  | .error f =>
    Session.safeError .initializationFailure f.message
    return 2
  | .ok () =>
    match ← Command.run i contents with
    | .ok s =>
      Session.emit (.record .info
        (toString s.failed ++ " of " ++ toString s.total ++ " inputs failed"))
      return s.exitCode
    | .error f =>
      Session.emit (.stderr ("Error: " ++ f.message))
      return 2

/-- Runs an invocation at a time, which `stamp` writes. -/
def run (env : Environment) (clock : Int) (stamp : String) (i : Invocation)
    (contents : Command.Contents) : Outcome :=
  let p := i.applyTo env.isSet (Preferences.ofEnvironment env)
  let filter : RecordFilter :=
    ⟨Entries.find? Environment.recordFilter env != some "off", p.logging.minLevel⟩
  let (exitCode, s) := body i p contents (Session.start env clock)
  ⟨s.emitted.toList.filterMap (print? filter stamp), exitCode⟩

def usage : String :=
  "Usage: zenith-scan [--json] [-v] <check|roundtrip> [--batch] <FILE>\n" ++
  "\n" ++
  "Commands:\n" ++
  "  check      Parse each tuple and print the node with its parse trail\n" ++
  "  roundtrip  Parse, serialize and re-parse each tuple\n" ++
  "  help       Print this message\n" ++
  "\n" ++
  "Options:\n" ++
  "      --json     Print one JSON report per input instead of text\n" ++
  "      --batch    Treat the file as an array of boolean tuples\n" ++
  "  -v, --verbose  Raise log verbosity (-v info, -vv debug)\n" ++
  "  -h, --help     Print help\n" ++
  "  -V, --version  Print version\n"

def version : String := "zenith-scan 0.1.0\n"

/-- What is printed when no invocation came of the arguments. -/
def usagePrint : UsageFault → Print
  | .help => .out usage
  | .version => .out version
  | f => .err ("error: " ++ f.label ++ "\n\n" ++ usage)

end ScanCriteria.Program
