/-!
# Log levels

From the gravest to the most talkative. A minimum level admits itself and all that is graver.
-/
namespace ScanCriteria

inductive Level where
  | error | warning | info | debug
  deriving DecidableEq, Inhabited, Repr

namespace Level

def all : List Level := [error, warning, info, debug]

def rank : Level → Nat
  | error => 0
  | warning => 1
  | info => 2
  | debug => 3

def label : Level → String
  | error => "Error"
  | warning => "Warning"
  | info => "Info"
  | debug => "Debug"

/-- The form in which events show their level. -/
def text : Level → String
  | error => "ERROR"
  | warning => "WARN"
  | info => "INFO"
  | debug => "DEBUG"

def ofLabel? (s : String) : Option Level := all.find? (·.label == s)

/-- Whether a logger with this minimum level takes events of level `l`. -/
def admits (minimum l : Level) : Bool := l.rank ≤ minimum.rank

/-- The more talkative of two levels. -/
def max (a b : Level) : Level := if a.rank ≤ b.rank then b else a

/-- Reads a setting: a name in any case, or a rank. Only ASCII letters fold to those of the
names. -/
def ofSetting? (s : String) : Option Level :=
  let word := s.map Char.toLower
  if word = "error" ∨ word = "0" then some error
  else if word = "warning" ∨ word = "warn" ∨ word = "1" then some warning
  else if word = "info" ∨ word = "2" then some info
  else if word = "debug" ∨ word = "3" then some debug
  else none

/-- No configuration can silence events of this level and above. -/
def floor : Level := warning

end Level
end ScanCriteria
