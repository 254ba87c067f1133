import ScanCriteria.Entries
import ScanCriteria.Json.Text
import ScanCriteria.Limits
import ScanCriteria.Log.Code
import ScanCriteria.Log.Level

/-!
# Log events

An event has a level, a code, a message and a context, whose entries are sorted by key. Its message
is clamped when the event is made. An event can be shown on one line, at length, or as JSON text.
-/
namespace ScanCriteria

/-- The longest run of leading characters within `room` bytes. -/
def takeBytes (room : Nat) : List Char → List Char
  | [] => []
  | c :: cs => if c.utf8Size ≤ room then c :: takeBytes (room - c.utf8Size) cs else []

/-- A text of at most `most` bytes, or its longest beginning that fits, and dots. -/
def clamp (most : Nat) (s : String) : String :=
  if s.utf8ByteSize ≤ most then s else String.ofList (takeBytes most s.toList) ++ "..."

def clampMessage (s : String) : String := clamp Limits.messageBytes s

structure Event where
  /-- Unix seconds. -/
  timestamp : Int
  level : Level
  code : Code
  message : String
  context : Entries String
  deriving DecidableEq, Inhabited

namespace Event

def build (timestamp : Int) (level : Level) (code : Code) (message : String) : Event :=
  ⟨timestamp, level, code, clampMessage message, []⟩

def error (timestamp : Int) (code : Code) (message : String) : Event :=
  build timestamp .error code message

def warning (timestamp : Int) (code : Option Code) (message : String) : Event :=
  build timestamp .warning (code.getD .plainWarning) message

def info (timestamp : Int) (message : String) : Event := build timestamp .info .plainInfo message

def success (timestamp : Int) (code : Code) (message : String) : Event :=
  build timestamp .info code message

def debug (timestamp : Int) (message : String) : Event := build timestamp .debug .plainDebug message

/-- Adds an entry to the context; a later value under a key replaces the earlier one. -/
def withContext (key value : String) (e : Event) : Event :=
  { e with context := e.context.put key value }

def withContexts (entries : List (String × String)) (e : Event) : Event :=
  entries.foldl (fun e (k, v) => e.withContext k v) e

def isError (e : Event) : Bool := e.level == .error

def isWarning (e : Event) : Bool := e.level == .warning

def isInfo (e : Event) : Bool := e.level == .info

def isDebug (e : Event) : Bool := e.level == .debug

/-- The classification of the event's code. -/
def entry (e : Event) : Code.Entry := Code.entry e.code

def contextPairs (e : Event) : List String := e.context.map fun (k, v) => k ++ "=" ++ v

def headline (e : Event) : String := "[" ++ e.level.text ++ "] " ++ e.code ++ " - " ++ e.message

/-- One line, with the context in parentheses. -/
def format (e : Event) : String :=
  if e.context.isEmpty then e.headline
  else e.headline ++ " (" ++ String.intercalate ", " e.contextPairs ++ ")"

def detail (label value : String) : String := "\n  " ++ label ++ ": " ++ value

def boolText (b : Bool) : String := if b then "true" else "false"

/-- The headline and a line for each thing known about the event. -/
def formatDetailed (e : Event) : String :=
  let c := e.entry
  e.headline ++ detail "Category" c.category ++ detail "Severity" c.severity.label
    ++ (if e.isError then
          detail "Recoverable" (boolText c.recoverable)
            ++ detail "Requires halt" (boolText c.requiresHalt)
        else "")
    ++ (if c.description = Code.unknownDescription then "" else detail "Description" c.description)
    ++ (if c.action = Code.unknownAction then "" else detail "Recommended action" c.action)
    ++ (if e.context.isEmpty then ""
        else "\n  Context:" ++ String.join (e.context.map fun (k, v) => "\n    " ++ k ++ ": " ++ v))

open Json

def metadataDocument (c : Code.Entry) : Value :=
  .object [("description", .string c.description), ("recommended_action", .string c.action),
    ("recoverable", .bool c.recoverable), ("requires_halt", .bool c.requiresHalt)]

/-- The event as JSON, its keys sorted. A time before 1970 is written as zero. -/
def document (e : Event) : Value :=
  let c := e.entry
  .object ([("category", .string c.category), ("code", .string e.code)]
    ++ (if e.context.isEmpty then []
        else [("context", .object (e.context.map fun (k, v) => (k, .string v)))])
    ++ (if e.isError then [("error_metadata", metadataDocument c)] else [])
    ++ [("level", .string e.level.text), ("message", .string e.message),
        ("severity", .string c.severity.label), ("timestamp", .ofNat e.timestamp.toNat)])

def formatJson (e : Event) : String := e.document.text

/-- The text of the event as a log record. -/
def recordText (e : Event) : String :=
  if e.context.isEmpty then e.code ++ " " ++ e.message
  else e.code ++ " " ++ e.message ++ " [" ++ String.intercalate " " e.contextPairs ++ "]"

end Event
end ScanCriteria
