import ScanCriteria.Log.Buffer
import ScanCriteria.Preferences

/-!
# Loggers and the logging service

A logger takes events to the console, to the host's log records, or into a buffer. A service stands
in front of a logger: it holds back events below its minimum level and clamps the messages of the
rest once more. What leaves the process is a list of emissions, in order.
-/
namespace ScanCriteria

inductive Emission where
  | stdout (line : String)
  | stderr (line : String)
  /-- A record for the log of the host. -/
  | record (level : Level) (text : String)
  /-- A piece of the report that a command writes. -/
  | report (text : String)
  deriving DecidableEq, Inhabited

/-- The kinds of logger that preferences choose from. -/
inductive LoggerKind where
  | facade | console | structured | memory
  deriving DecidableEq, Inhabited, Repr

namespace LoggerKind

def label : LoggerKind → String
  | facade => "Facade"
  | console => "Console"
  | structured => "Structured"
  | memory => "Memory"

/-- Log records come first; without console output events are kept in memory. -/
def ofPreferences (p : LoggingPreferences) : LoggerKind :=
  if p.useFacade then facade
  else if !p.enableConsole then memory
  else if p.useStructured then structured
  else console

end LoggerKind

inductive Logger where
  | facade (minimum : Level)
  | console (minimum : Level)
  | structured (minimum : Level)
  | memory (buffer : Buffer)

namespace Logger

def ofKind (k : LoggerKind) (minimum : Level) : Logger :=
  match k with
  | .facade => facade minimum
  | .console => console minimum
  | .structured => structured minimum
  | .memory => memory .empty

/-- Errors go to standard error. -/
def line (e : Event) (text : String) : Emission :=
  if e.isError then .stderr text else .stdout text

def log (e : Event) : Logger → Logger × List Emission
  | facade minimum =>
    (facade minimum, if minimum.admits e.level then [.record e.level e.recordText] else [])
  | console minimum =>
    (console minimum, if minimum.admits e.level then [line e e.format] else [])
  | structured minimum =>
    (structured minimum, if minimum.admits e.level then [line e e.formatJson] else [])
  | memory b => (memory (b.push e), [])

def buffer? : Logger → Option Buffer
  | memory b => some b
  | _ => none

/-- Forgets the events that are kept in memory. -/
def clear : Logger → Logger
  | memory _ => memory .empty
  | l => l

end Logger

structure Service where
  logger : Logger
  minLevel : Level
  /-- Absent when the logger was not chosen by preferences. -/
  kind : Option LoggerKind

namespace Service

def ofLogger (logger : Logger) (minLevel : Level) : Service := ⟨logger, minLevel, none⟩

def ofPreferences (p : LoggingPreferences) : Service :=
  let kind := LoggerKind.ofPreferences p
  ⟨.ofKind kind p.effectiveLevel, p.effectiveLevel, some kind⟩

def admits (s : Service) (l : Level) : Bool := s.minLevel.admits l

/-- Logs an event if its level is admitted. -/
def log (e : Event) (s : Service) : Service × List Emission :=
  if s.admits e.level then
    let ⟨logger, minLevel, kind⟩ := s
    let (logger, out) := logger.log { e with message := clampMessage e.message }
    (⟨logger, minLevel, kind⟩, out)
  else (s, [])

def clear (s : Service) : Service := { s with logger := s.logger.clear }

end Service
end ScanCriteria
