/-!
# Codes of events and errors

Every code that events and errors carry is registered with its classification. A code without an
entry counts as a recoverable error of medium severity.
-/
namespace ScanCriteria

inductive Severity where
  | critical | high | medium | low
  deriving DecidableEq, Inhabited, Repr

namespace Severity

def all : List Severity := [critical, high, medium, low]

def label : Severity → String
  | critical => "Critical"
  | high => "High"
  | medium => "Medium"
  | low => "Low"

/-- Zero is the gravest. -/
def rank : Severity → Nat
  | critical => 0
  | high => 1
  | medium => 2
  | low => 3

def ofLabel? (s : String) : Option Severity := all.find? (·.label == s)

end Severity

abbrev Code := String

namespace Code

def internalError : Code := "ERR001"
def initializationFailure : Code := "ERR002"
def structural : Code := "Z301"
def unknownTag : Code := "Z302"
def typeMismatch : Code := "Z303"
def arity : Code := "Z304"
def range : Code := "Z305"
def format : Code := "Z306"
def objectNullity : Code := "Z307"
def limitExceeded : Code := "Z308"
def nonFiniteLiteral : Code := "Z401"
def inputRead : Code := "C001"
def inputJson : Code := "C002"
def roundTripMismatch : Code := "C003"
def outputWrite : Code := "C004"
def loggingReady : Code := "I004"
def parseComplete : Code := "I300"
def serializeComplete : Code := "I400"
def roundTripVerified : Code := "I401"
/-- Codes of events that have none of their own. -/
def plainWarning : Code := "W000"
def plainInfo : Code := "I000"
def plainDebug : Code := "D000"

/-- How a code is classified. -/
structure Entry where
  code : Code
  category : String
  severity : Severity
  recoverable : Bool
  requiresHalt : Bool
  description : String
  action : String

/-- An entry that is recoverable and does not ask for a halt. -/
def recoverable (code : Code) (category : String) (severity : Severity)
    (description action : String) : Entry :=
  ⟨code, category, severity, true, false, description, action⟩

def fatal (code : Code) (category description action : String) : Entry :=
  ⟨code, category, .critical, false, true, description, action⟩

def registry : List Entry := [
  fatal internalError "System" "Internal converter invariant violated"
    "File a bug report with the node or field that triggered it",
  fatal initializationFailure "System" "Logging or configuration initialization failure"
    "Check ZENITH_* environment settings and initialize only once",
  recoverable structural "Parse" .medium
    "Tuple node is not a non-empty array headed by a string tag"
    "Send each node as [tag, ...params] with a string tag",
  recoverable unknownTag "Parse" .medium "Unknown tuple tag, field or sub-field name"
    "Check the tag against the supported Zenith scan criteria vocabulary",
  recoverable typeMismatch "Parse" .medium "Parameter has the wrong JSON type"
    "Use a number, string or boolean as the field's data type requires",
  recoverable arity "Parse" .medium "Wrong number of parameters for the tuple node"
    "Match the parameter count required by the node or field kind",
  recoverable range "Parse" .medium "Range has neither a minimum nor a maximum"
    "Supply Min, Max or both",
  recoverable format "Parse" .medium "Date value is not a valid ISO-8601 string"
    "Use YYYY-MM-DD or an RFC 3339 date-time",
  recoverable objectNullity "Parse" .medium "Named parameter object is null"
    "Send an object, or omit the parameter",
  recoverable limitExceeded "Parse" .high "Tuple exceeds a configured parser limit"
    "Simplify the criteria or raise the limit in the build profile",
  recoverable nonFiniteLiteral "Serialize" .low
    "Numeric literal is not finite and was written as null"
    "Replace NaN or infinite literals before sending criteria",
  recoverable inputRead "Consumer" .medium "Input could not be read"
    "Check the input path and permissions",
  recoverable inputJson "Consumer" .medium "Input is not valid JSON"
    "Fix the JSON syntax of the input document",
  recoverable roundTripMismatch "Consumer" .high
    "Re-serialized criteria did not parse back to the same tree"
    "Report the input tuple; the converter lost information",
  recoverable outputWrite "Consumer" .medium "Report could not be written"
    "Check that the output stream is still open",
  recoverable loggingReady "System" .low "Logging system initialized" "Continue",
  recoverable parseComplete "Parse" .low "Boolean tuple parsed into a criteria tree" "Continue",
  recoverable serializeComplete "Serialize" .low
    "Criteria tree serialized into a boolean tuple" "Continue",
  recoverable roundTripVerified "Consumer" .low
    "Criteria survived a parse and serialize round trip" "Continue"]

def registered? (c : Code) : Option Entry := registry.find? (·.code == c)

def unknownDescription : String := "Unknown error"

def unknownAction : String := "No specific action available"

/-- The classification of a code; one that is not registered gets the usual one. -/
def entry (c : Code) : Entry :=
  (registered? c).getD (recoverable c "Unknown" .medium unknownDescription unknownAction)

/-- The first code without a description among those that a log cannot do without. -/
def undescribed? : Option Code :=
  [structural, limitExceeded, internalError].find? fun c => (entry c).description == unknownDescription

@[simp] theorem undescribed?_eq_none : undescribed? = none := by decide

end Code
end ScanCriteria
