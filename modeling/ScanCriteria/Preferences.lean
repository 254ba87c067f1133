import ScanCriteria.Json.Value
import ScanCriteria.Log.Level

/-!
# Preferences

What a user may choose at run time: what conversions report, and where the log goes. Preferences
come from a JSON document, in which no entry may be missing, or from environment variables, in which
a value that is not understood counts as unset.
-/
namespace ScanCriteria

structure ConverterPreferences where
  /-- Conversions report their outcome to the log. -/
  logConversions : Bool
  /-- Each entry of a parse's progress is logged. -/
  logParseTrail : Bool
  /-- Advice on a failed parse ends with its trail. -/
  includeTrailInErrors : Bool
  deriving DecidableEq, Inhabited, Repr

structure LoggingPreferences where
  useStructured : Bool
  enableConsole : Bool
  useFacade : Bool
  minLevel : Level
  deriving DecidableEq, Inhabited, Repr

structure Preferences where
  converter : ConverterPreferences
  logging : LoggingPreferences
  deriving DecidableEq, Inhabited, Repr

/-- Environment variables that are set, with their values. -/
abbrev Environment := Entries String

namespace Environment

def isSet (env : Environment) (name : String) : Bool := (Entries.find? name env).isSome

def flag? (env : Environment) (name : String) : Option Bool :=
  match Entries.find? name env with
  | some "true" => some true
  | some "false" => some false
  | _ => none

def level? (env : Environment) (name : String) : Option Level :=
  Entries.find? name env >>= Level.ofSetting?

def logConversions : String := "ZENITH_CONVERTER_LOG_CONVERSIONS"
def logParseTrail : String := "ZENITH_CONVERTER_LOG_PARSE_TRAIL"
def includeTrailInErrors : String := "ZENITH_CONVERTER_INCLUDE_TRAIL_IN_ERRORS"
def useStructured : String := "ZENITH_LOGGING_USE_STRUCTURED"
def enableConsole : String := "ZENITH_LOGGING_ENABLE_CONSOLE"
def useFacade : String := "ZENITH_LOGGING_USE_FACADE"
def minLevel : String := "ZENITH_LOGGING_MIN_LEVEL"
/-- The filter of log records. -/
def recordFilter : String := "ZENITH_LOG"

def names : List String :=
  [logConversions, logParseTrail, includeTrailInErrors, useStructured, enableConsole, useFacade,
   minLevel, recordFilter]

end Environment

namespace Preferences

def ofEnvironment (env : Environment) : Preferences where
  converter :=
    { logConversions := (env.flag? Environment.logConversions).getD true
      logParseTrail := (env.flag? Environment.logParseTrail).getD false
      includeTrailInErrors := (env.flag? Environment.includeTrailInErrors).getD true }
  logging :=
    { useStructured := (env.flag? Environment.useStructured).getD false
      enableConsole := (env.flag? Environment.enableConsole).getD false
      useFacade := (env.flag? Environment.useFacade).getD false
      minLevel := (env.level? Environment.minLevel).getD .info }

end Preferences

/-- The level that is logged: as asked for, but never above the floor. -/
def LoggingPreferences.effectiveLevel (p : LoggingPreferences) : Level := p.minLevel.max Level.floor

open Json

def boolEntry? (key : String) (es : Entries Value) : Option Bool :=
  match Entries.find? key es with
  | some (.bool b) => some b
  | _ => none

namespace ConverterPreferences

def document (p : ConverterPreferences) : Value :=
  .object [("log_conversions", .bool p.logConversions), ("log_parse_trail", .bool p.logParseTrail),
    ("include_trail_in_errors", .bool p.includeTrailInErrors)]

def parts : List String := ["log_conversions", "log_parse_trail", "include_trail_in_errors"]

def ofDocument? (v : Value) : Option ConverterPreferences := do
  let es ← v.parts? parts
  let conversions ← boolEntry? "log_conversions" es
  let trail ← boolEntry? "log_parse_trail" es
  let errors ← boolEntry? "include_trail_in_errors" es
  return ⟨conversions, trail, errors⟩

end ConverterPreferences

namespace LoggingPreferences

def document (p : LoggingPreferences) : Value :=
  .object [("use_structured_logging", .bool p.useStructured),
    ("enable_console_logging", .bool p.enableConsole), ("use_log_facade", .bool p.useFacade),
    ("min_log_level", .string p.minLevel.label)]

def parts : List String :=
  ["use_structured_logging", "enable_console_logging", "use_log_facade", "min_log_level"]

def ofDocument? (v : Value) : Option LoggingPreferences := do
  let es ← v.parts? parts
  let structured ← boolEntry? "use_structured_logging" es
  let console ← boolEntry? "enable_console_logging" es
  let facade ← boolEntry? "use_log_facade" es
  let level ← Entries.find? "min_log_level" es >>= Value.name? >>= Level.ofLabel?
  return ⟨structured, console, facade, level⟩

end LoggingPreferences

namespace Preferences

def document (p : Preferences) : Value :=
  .object [("converter", p.converter.document), ("logging", p.logging.document)]

def ofDocument? (v : Value) : Option Preferences := do
  let es ← v.parts? ["converter", "logging"]
  let converter ← Entries.find? "converter" es >>= ConverterPreferences.ofDocument?
  let logging ← Entries.find? "logging" es >>= LoggingPreferences.ofDocument?
  return ⟨converter, logging⟩

end Preferences
end ScanCriteria
