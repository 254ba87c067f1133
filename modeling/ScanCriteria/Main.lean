import ScanCriteria.Command.Program
import Std.Time.DateTime

/-!
# Command line

Reads the environment, the file and the clock, runs the program and prints what it puts out.
-/
namespace ScanCriteria.Program

def readEnvironment : IO Environment := do
  let values ← Environment.names.mapM fun name => return (name, ← IO.getEnv name)
  return values.filterMap fun (name, value) => value.map fun v => (name, v)

/-- The reason that the system gives, with its number. Some reasons start with a small letter and
have a negated number. -/
def systemReason (code : UInt32) (details : String) : String :=
  let code := if code.toNat < 1 <<< 31 then code.toNat else 1 <<< 32 - code.toNat
  details.capitalize ++ " (os error " ++ toString code ++ ")"

def failureReason : IO.Error → String
  | .noFileOrDirectory _ code details | .interrupted _ code details
  | .invalidArgument _ code details | .permissionDenied _ code details
  | .resourceExhausted _ code details | .inappropriateType _ code details
  | .noSuchThing _ code details | .otherError code details | .resourceBusy code details
  | .hardwareFault code details | .illegalOperation code details => systemReason code details
  | e => toString e

def readContents (file : String) : IO Command.Contents := do
  try
    return .ok (← IO.FS.readBinFile file)
  catch e =>
    return .error (failureReason e)

/-- The time as records show it. -/
def stampOf (time : Std.Time.Timestamp) : String :=
  let t := Std.Time.DateTime.ofTimestamp time Std.Time.TimeZone.ZoneRules.UTC
  let parts : MomentParts :=
    { year := t.year.toInt, month := t.month.val.toNat, day := t.day.val.toNat
      hour := t.hour.val.toNat, minute := t.minute.val.toNat, second := t.second.val.toNat
      nanos := 0, offset := 0 }
  ((Moment.ofParts? parts).map Moment.text).getD ""

def perform : Print → IO Unit
  | .out text => do (← IO.getStdout).putStr text
  | .err text => do (← IO.getStderr).putStr text

end ScanCriteria.Program

open ScanCriteria in
def main (args : List String) : IO UInt32 := do
  match Invocation.ofArguments args with
  | .error f =>
    Program.perform (Program.usagePrint f)
    return f.exitCode.toUInt32
  | .ok i =>
    let env ← Program.readEnvironment
    let contents ← Program.readContents i.file
    let time ← Std.Time.Timestamp.now
    let clock := time.toSecondsSinceUnixEpoch.val
    let outcome := Program.run env clock (Program.stampOf time) i contents
    outcome.prints.forM Program.perform
    return outcome.exitCode.toUInt32
