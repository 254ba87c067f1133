import ScanCriteria.Session.Basic
import ScanCriteria.Wire.Parse
import ScanCriteria.Wire.Serialize

/-!
# Conversions in a session

Parsing and serializing report to the log what the preferences ask for: the outcome of each
conversion, and every tuple of a parse. Literals that are lost on the way to the wire are warned of
in any case, and a misplaced field is a critical error.
-/
namespace ScanCriteria.Session
open Json Wire

def nodeContext (n : ParsedNode) : List (String × String) :=
  [("depth", toString n.depth), ("tag", n.tag), ("resolved", Progress.resolvedText n.resolved)]

def logTrail (p : Progress) : SessionM Unit :=
  p.nodes.toList.forM fun n => logDebug "Parse trail" (nodeContext n)

def logParse : Except Failure Parsed → SessionM Unit
  | .ok p => logSuccess .parseComplete "Criteria tuple parsed"
      [("root", p.criterion.kind.label), ("nodes", toString p.progress.nodeCount)]
  | .error f => logError f.fault.code f.fault.message
      [("id", f.fault.cause.label), ("nodes", toString f.progress.nodeCount)]

def progressOf : Except Failure Parsed → Progress
  | .ok p => p.progress
  | .error f => f.progress

def parse (v : Value) : SessionM (Except Failure Parsed) := do
  let result := Wire.parse v
  let preferences ← currentPreferences
  if preferences.converter.logConversions then logParse result
  if preferences.converter.logParseTrail then logTrail (progressOf result)
  return result

/-- How a number that is not finite is named. -/
def lostText (x : Double) : String :=
  if x.isNaN then "NaN" else if x.isNegative then "-inf" else "inf"

def warnLost (x : Double) : SessionM Unit :=
  logWarning (some .nonFiniteLiteral) "Non-finite numeric literal serialized as null"
    [("value", lostText x)]

def serialize (c : Criterion) : SessionM (Except Misplaced Value) := do
  let s := Wire.serialize c
  s.lost.forM warnLost
  match s.result with
  | .error m =>
    safeCritical .internalError m.message
    return .error m
  | .ok wire =>
    if (← currentPreferences).converter.logConversions then
      logSuccess .serializeComplete "Criteria node serialized"
        [("root", c.kind.label), ("nodes", toString c.nodeCount)]
    return .ok wire

/-- The advice on a failed parse, with its trail if the preferences say so. -/
def advice (f : Failure) : SessionM String :=
  return f.advice (← currentPreferences).converter.includeTrailInErrors

end ScanCriteria.Session
