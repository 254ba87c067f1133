/-!
# Limits

What a tuple may need to be parsed, and how much the log keeps.
-/
namespace ScanCriteria.Limits

/-- Tuples open at once. -/
def depth : Nat := 128

/-- Tuples in all. -/
def nodes : Nat := 100000

/-- Elements of a tuple, its tag included. -/
def length : Nat := 10001

/-- Arms of a choice, the last one included. -/
def arms : Nat := 1000

/-- Events that the log buffer holds. -/
def bufferedEvents : Nat := 10000

/-- Bytes of an event's message. -/
def messageBytes : Nat := 4096

/-- Where the limits are set. -/
def source : String := "Generated from config/development.toml"

/-- Why the limits of the log could not be kept to. -/
def logFault? : Option String :=
  if bufferedEvents = 0 then some "Log buffer size must be non-zero"
  else if messageBytes < 64 then some s!"Max log message length too small: {messageBytes}"
  else none

@[simp] theorem logFault?_eq_none : logFault? = none := rfl

end ScanCriteria.Limits
