import ScanCriteria.Preferences

/-!
# Command line arguments

An invocation is a command with the file that it works on and its flags. Arguments are read from
left to right and the first fault counts, except that an empty file name is noticed only at the next
valid flag or at the end. Flags may stand before or after the command, except `--batch`, which
belongs to it; after `--` everything is a file name.
-/
namespace ScanCriteria

inductive Command where
  | check | roundTrip
  deriving DecidableEq, Inhabited, Repr

def Command.label : Command → String
  | check => "check"
  | roundTrip => "roundtrip"

structure Invocation where
  command : Command
  file : String
  batch : Bool
  json : Bool
  verbose : Nat
  deriving DecidableEq, Repr

/-- Why no invocation came of the arguments; asking for help or the version is a reason too. -/
inductive UsageFault where
  | helpOnMissing
  | missingSubcommand
  | missingArgument
  | unknownArgument
  | invalidSubcommand
  | conflict
  | invalidValue
  | tooManyValues
  | help
  | version
  deriving DecidableEq, Inhabited, Repr

namespace UsageFault

def label : UsageFault → String
  | helpOnMissing => "DisplayHelpOnMissingArgumentOrSubcommand"
  | missingSubcommand => "MissingSubcommand"
  | missingArgument => "MissingRequiredArgument"
  | unknownArgument => "UnknownArgument"
  | invalidSubcommand => "InvalidSubcommand"
  | conflict => "ArgumentConflict"
  | invalidValue => "InvalidValue"
  | tooManyValues => "TooManyValues"
  | help => "DisplayHelp"
  | version => "DisplayVersion"

/-- Answering a request is no failure. -/
def exitCode : UsageFault → UInt8
  | help | version => 0
  | _ => 2

end UsageFault

namespace Arguments

inductive Flag where
  | json | verbose | batch | help | version
  deriving DecidableEq, Repr

/-- Which part of the command line is being read. -/
inductive Place where
  | beforeCommand | afterCommand
  deriving DecidableEq, Repr

def Flag.standsIn : Place → Flag → Bool
  | .beforeCommand, f => f != .batch
  | .afterCommand, f => f != .version

def longFlag? : String → Option Flag
  | "json" => some .json
  | "verbose" => some .verbose
  | "batch" => some .batch
  | "help" => some .help
  | "version" => some .version
  | _ => none

def shortFlag? : Char → Option Flag
  | 'v' => some .verbose
  | 'h' => some .help
  | 'V' => some .version
  | _ => none

/-- An argument by its looks. -/
inductive Token where
  | escape
  | long (name : String) (hasValue : Bool)
  | short (flags : List Char)
  | plain

def token (arg : String) : Token :=
  match arg.toList with
  | ['-', '-'] => .escape
  | '-' :: '-' :: rest =>
    .long (String.ofList (rest.takeWhile (· != '='))) (rest.contains '=')
  | '-' :: c :: rest => .short (c :: rest)
  | _ => .plain

/-- What has been seen in one place. -/
structure Seen where
  json : Bool
  verbose : Nat
  batch : Bool
  file : Option String

def Seen.nothing : Seen := ⟨false, 0, false, none⟩

def mostVerbose : Nat := 255

/-- The effect of a flag. Only `verbose` may be repeated. -/
def apply (f : Flag) (s : Seen) : Except UsageFault Seen :=
  if s.file = some "" then .error .invalidValue
  else
    match f with
    | .json => if s.json then .error .conflict else .ok { s with json := true }
    | .batch => if s.batch then .error .conflict else .ok { s with batch := true }
    | .verbose => .ok { s with verbose := min (s.verbose + 1) mostVerbose }
    | .help => .error .help
    | .version => .error .version

def known (p : Place) (f : Option Flag) : Except UsageFault Flag :=
  match f.filter (Flag.standsIn p) with
  | some f => .ok f
  | none => .error .unknownArgument

def applyLong (p : Place) (name : String) (hasValue : Bool) (s : Seen) :
    Except UsageFault Seen := do
  let f ← known p (longFlag? name)
  if hasValue then .error .tooManyValues else apply f s

def applyShorts (p : Place) : List Char → Seen → Except UsageFault Seen
  | [], s => .ok s
  | c :: cs, s => do
    let f ← known p (shortFlag? c)
    let s ← apply f s
    applyShorts p cs s

def takeFile (arg : String) (s : Seen) : Except UsageFault Seen :=
  if s.file.isSome then .error .unknownArgument else .ok { s with file := some arg }

/-- The arguments after the command. -/
def afterCommand (escaped : Bool) (s : Seen) : List String → Except UsageFault Seen
  | [] =>
    match s.file with
    | none => .error .missingArgument
    | some "" => .error .invalidValue
    | some _ => .ok s
  | arg :: rest => do
    if escaped then afterCommand true (← takeFile arg s) rest
    else
      match token arg with
      | .escape => afterCommand true s rest
      | .long name hasValue => afterCommand false (← applyLong .afterCommand name hasValue s) rest
      | .short flags => afterCommand false (← applyShorts .afterCommand flags s) rest
      | .plain => afterCommand false (← takeFile arg s) rest

def command? : String → Option Command
  | "check" => some .check
  | "roundtrip" => some .roundTrip
  | _ => none

/-- Help on one command at most. -/
def helpOn : List String → UsageFault
  | [] => .help
  | [name] => if (command? name).isSome ∨ name = "help" then .help else .invalidSubcommand
  | _ => .invalidSubcommand

/-- The count after the command wins over the one before it. -/
def invocation (c : Command) (before after : Seen) : Invocation where
  command := c
  file := after.file.getD ""
  batch := after.batch
  json := before.json || after.json
  verbose := if after.verbose = 0 then before.verbose else after.verbose

def afterEscape : List String → UsageFault
  | [] => .helpOnMissing
  | name :: _ =>
    if (command? name).isSome ∨ name = "help" then .unknownArgument else .invalidSubcommand

def beforeCommand (s : Seen) : List String → Except UsageFault Invocation
  | [] => .error (if s.json || s.verbose != 0 then .missingSubcommand else .helpOnMissing)
  | arg :: rest =>
    match command? arg with
    | some c => (afterCommand false .nothing rest).map (invocation c s)
    | none =>
      if arg = "help" then .error (helpOn rest)
      else
        match token arg with
        | .escape =>
          .error (
            if rest.isEmpty ∧ (s.json ∨ s.verbose ≠ 0) then .missingSubcommand
            else afterEscape rest)
        | .long name hasValue => do
          beforeCommand (← applyLong .beforeCommand name hasValue s) rest
        | .short flags => do beforeCommand (← applyShorts .beforeCommand flags s) rest
        | .plain => .error .invalidSubcommand

end Arguments

namespace Invocation

def ofArguments (args : List String) : Except UsageFault Invocation :=
  Arguments.beforeCommand .nothing args

/-- The level that the verbosity asks for. -/
def level (i : Invocation) : Level :=
  if i.verbose = 0 then .warning else if i.verbose = 1 then .info else .debug

/-- Applies an invocation to preferences. Unless the environment says otherwise events become log
records, at the level asked for; a level from the environment is at most raised. -/
def applyTo (i : Invocation) (isSet : String → Bool) (p : Preferences) : Preferences :=
  let logging := p.logging
  { p with logging := { logging with
      useFacade := if isSet Environment.useFacade then logging.useFacade else true
      minLevel :=
        if isSet Environment.minLevel then logging.minLevel.max i.level else i.level } }

end Invocation
end ScanCriteria
