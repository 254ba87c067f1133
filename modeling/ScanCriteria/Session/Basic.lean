import ScanCriteria.Log.Service

/-!
# Sessions

A session is what a running process remembers: the preferences and the logging service, each
installed once, and the input at work, which is attached to what is logged meanwhile. Preferences
that are asked for before they are installed are taken from the environment and stay. Logging
without a service is silent.
-/
namespace ScanCriteria

/-- The input at work: its source and, in a batch, its index. -/
structure InputContext where
  source : String
  index : Option Nat
  deriving DecidableEq, Repr

structure Session where
  environment : Environment
  /-- Unix seconds that events are stamped with. -/
  clock : Int
  preferences : Option Preferences
  service : Option Service
  input : Option InputContext
  /-- Bytes that the reader of a report still takes; absent for one who takes all. -/
  room : Option Nat
  emitted : Array Emission

abbrev SessionM := StateM Session

/-- Why something could not be installed. -/
inductive InstallFault where
  | preferencesInstalled
  | serviceInstalled
  /-- The limits of the log cannot be kept to. -/
  | unusableLimits (reason : String)
  /-- A code that is needed has no description. -/
  | undescribed (c : Code)
  deriving DecidableEq, Repr

def InstallFault.message : InstallFault → String
  | preferencesInstalled => "Runtime configuration already initialized"
  | serviceInstalled => "Global logger already initialized"
  | unusableLimits reason => "Configuration validation failed: " ++ reason
  | undescribed c => "Missing metadata for error code: " ++ c

namespace Session

def start (environment : Environment) (clock : Int) : Session where
  environment := environment
  clock := clock
  preferences := none
  service := none
  input := none
  room := none
  emitted := #[]

def emit (e : Emission) : SessionM Unit := modify fun s => { s with emitted := s.emitted.push e }

/-- The preferences in force; those of the environment are installed if there are none. -/
def currentPreferences : SessionM Preferences := modifyGet fun s =>
  match s.preferences with
  | some p => (p, s)
  | none =>
    let p := Preferences.ofEnvironment s.environment
    (p, { s with preferences := some p })

def installPreferences (p : Preferences) : SessionM (Except InstallFault Unit) := do
  match (← get).preferences with
  | some _ => return .error .preferencesInstalled
  | none =>
    modify fun s => { s with preferences := some p }
    return .ok ()

/-- Logs an event as it is. -/
def logEvent (e : Event) : SessionM Unit := modify fun s =>
  match s with
  | ⟨environment, clock, preferences, some service, input, room, emitted⟩ =>
    let (service, out) := service.log e
    ⟨environment, clock, preferences, some service, input, room, emitted ++ out⟩
  | s => s

/-- Installs a service, if there is none, and tells it so once its codes have been looked up. -/
def installService (service : Service) : SessionM (Except InstallFault Unit) := do
  let s ← get
  if s.service.isSome then return .error .serviceInstalled
  else
    modify fun s => { s with service := some service }
    match Code.undescribed? with
    | some c => return .error (.undescribed c)
    | none =>
      logEvent (Event.success s.clock .loggingReady "Global logging system initialized")
      return .ok ()

/-- Installs the service that the preferences ask for. -/
def initLogging : SessionM (Except InstallFault Unit) := do
  match Limits.logFault? with
  | some reason => return .error (.unusableLimits reason)
  | none =>
    let p ← currentPreferences
    installService (Service.ofPreferences p.logging)

def admits (l : Level) : SessionM Bool := return ((← get).service.map (·.admits l)).getD false

def setInput (c : Option InputContext) : SessionM Unit := modify fun s => { s with input := c }

/-- Runs a body on an input; afterwards no input is at work. A body that breaks off leaves its input
at work. -/
def withInput [Monad m] [MonadLiftT SessionM m] (c : InputContext) (body : m α) : m α := do
  setInput (some c)
  let result ← body
  setInput none
  return result

end Session

def InputContext.entries (c : InputContext) : List (String × String) :=
  ("input", c.source) :: (c.index.map fun i => ("input_index", toString i)).toList

namespace Session

/-- Adds the input at work to the context of an event. -/
def attachInput (e : Event) : SessionM Event :=
  return match (← get).input with
    | some c => e.withContexts c.entries
    | none => e

/-- Logs an event with some context and the input at work, which has the last word on its keys. -/
def dispatch (e : Event) (context : List (String × String)) : SessionM Unit := do
  if ← admits e.level then
    logEvent (← attachInput (e.withContexts context))

def logError (code : Code) (message : String) (context : List (String × String)) :
    SessionM Unit := do
  dispatch (.error (← get).clock code message) context

def logSuccess (code : Code) (message : String) (context : List (String × String)) :
    SessionM Unit := do
  dispatch (.success (← get).clock code message) context

def logInfo (message : String) (context : List (String × String)) : SessionM Unit := do
  dispatch (.info (← get).clock message) context

def logWarning (code : Option Code) (message : String) (context : List (String × String)) :
    SessionM Unit := do
  dispatch (.warning (← get).clock code message) context

def logDebug (message : String) (context : List (String × String)) : SessionM Unit := do
  dispatch (.debug (← get).clock message) context

/-- Logs an error without context; without a service it goes to standard error. -/
def safeError (code : Code) (message : String) : SessionM Unit := do
  let s ← get
  if s.service.isSome then logEvent (.error s.clock code message)
  else emit (.stderr ("[ERROR] FALLBACK: [" ++ code ++ "] " ++ message))

/-- Logs an error without context, and tells standard error in any case. -/
def safeCritical (code : Code) (message : String) : SessionM Unit := do
  logEvent (.error (← get).clock code message)
  emit (.stderr ("CRITICAL ERROR [" ++ code ++ "]: " ++ message))

def diagnosticLines (service : Option Service) (p : LoggingPreferences) : List String :=
  ["=== Logging System Diagnostics ===", "Initialized: " ++ Event.boolText service.isSome]
    ++ (service.map fun s => "Active level: " ++ s.minLevel.text).toList
    ++ ["", "Logging Configuration (" ++ Limits.source ++ "):",
        "=== Limits (Compile-time) ===",
        "- Log buffer size: " ++ toString Limits.bufferedEvents,
        "- Max message length: " ++ toString Limits.messageBytes,
        "- Minimum enforced level: " ++ Level.floor.text,
        "=== Preferences (Runtime) ===",
        "- Min log level: " ++ p.minLevel.label,
        "- Structured logging: " ++ Event.boolText p.useStructured,
        "- Console logging: " ++ Event.boolText p.enableConsole,
        "- Log facade: " ++ Event.boolText p.useFacade]

def diagnostics : SessionM String := do
  let p ← currentPreferences
  return String.intercalate "\n" (diagnosticLines (← get).service p.logging)

end Session
end ScanCriteria
