import ScalarSolve.Settings.Sources

/-!
# Arguments

What a user asks for on the command line.  Every option takes a value, as the next argument or after
an equals sign, and is given at most once.
-/

namespace ScalarSolve

/-- An option of the command line. -/
inductive CliOption where
  | config
  | host
  | port
  | logLevel
  | logFormat
  | maxIterations
deriving DecidableEq, Repr

/-- Why arguments are refused. -/
inductive UsageError where
  | unknown (argument : String)
  | valueMissing (option : CliOption)
  | notANumber (option : CliOption) (text : String)
  | repeated (option : CliOption)
deriving DecidableEq, Repr

/-- What a user asks for. -/
inductive Command where
  | serve (file : Option String) (options : CommandLine)
  | help
  | version
deriving DecidableEq, Repr

namespace CliOption

def all : List CliOption := [config, host, port, logLevel, logFormat, maxIterations]

def name : CliOption → String
  | config => "config"
  | host => "host"
  | port => "port"
  | logLevel => "log-level"
  | logFormat => "log-format"
  | maxIterations => "max-iterations"

/-- The letter that some options have as a short name. -/
def letter? : CliOption → Option Char
  | config => some 'c'
  | port => some 'p'
  | host | logLevel | logFormat | maxIterations => none

def description : CliOption → String
  | config => "Configuration file in TOML format"
  | host => "Host address to bind to"
  | port => "Port to listen on"
  | logLevel => "Log level (trace, debug, info, warn, error)"
  | logFormat => "Log format (text, json)"
  | maxIterations => "Largest maxIter a request may ask for"

end CliOption

namespace UsageError

def message : UsageError → String
  | unknown argument => "unexpected argument '" ++ argument ++ "'"
  | valueMissing option => "option '--" ++ option.name ++ "' requires a value"
  | notANumber option text =>
      "invalid value '" ++ text ++ "' for option '--" ++ option.name ++ "'"
  | repeated option => "option '--" ++ option.name ++ "' cannot be used multiple times"

end UsageError

namespace Command

/-- The options given so far, latest first. -/
abbrev Given := List (CliOption × String)

/-- The option that an argument names, and the value if it follows an equals sign. -/
def option? (argument : String) : Option (CliOption × Option String) :=
  match argument.toList with
  | '-' :: '-' :: cs =>
    let name := cs.takeWhile (· != '=')
    (CliOption.all.find? fun o ↦ o.name == String.ofList name).map fun o ↦
      match cs.drop name.length with
      | _ :: value => (o, some (String.ofList value))
      | [] => (o, none)
  | ['-', c] => (CliOption.all.find? fun o ↦ o.letter? == some c).map fun o ↦ (o, none)
  | _ => none

/-- One more option. -/
def give (given : Given) (o : CliOption) (value : String) : Except UsageError Given :=
  if (given.lookup o).isSome then .error (.repeated o) else .ok ((o, value) :: given)

/-- The options among some arguments, up to one that asks for something else. -/
def options (given : Given) : List String → Except UsageError (Given ⊕ Command)
  | [] => .ok (.inl given)
  | argument :: rest =>
    if argument == "--help" || argument == "-h" then .ok (.inr help)
    else if argument == "--version" || argument == "-V" then .ok (.inr version)
    else match option? argument, rest with
      | none, _ => .error (.unknown argument)
      | some (o, some value), rest => do options (← give given o value) rest
      | some (o, none), value :: rest => do options (← give given o value) rest
      | some (o, none), [] => .error (.valueMissing o)

/-- The value of an option that takes a number below `limit`. -/
def number? (given : Given) (o : CliOption) (limit : Nat) : Except UsageError (Option Nat) :=
  match given.lookup o with
  | none => .ok none
  | some text =>
    match Settings.unsigned? limit text.toList with
    | some n => .ok (some n)
    | none => .error (.notANumber o text)

/-- The command that the arguments spell. -/
def ofArguments (arguments : List String) : Except UsageError Command := do
  match ← options [] arguments with
  | .inr command => return command
  | .inl given =>
    return serve (given.lookup .config) {
      host := given.lookup .host
      port := ← number? given .port Settings.portLimit
      logLevel := given.lookup .logLevel
      logFormat := given.lookup .logFormat
      maxIterations := ← number? given .maxIterations Settings.wordLimit }

/-- The names of an option. -/
def names (o : CliOption) : String :=
  match o.letter? with
  | some c => "-" ++ c.toString ++ ", --" ++ o.name
  | none => "    --" ++ o.name

/-- The options with their descriptions, one on each line. -/
def usage : String :=
  "Options:\n" ++ String.join (CliOption.all.map fun o ↦
    "  " ++ names o ++ " <VALUE>\n          " ++ o.description ++ "\n")

end Command

end ScalarSolve
