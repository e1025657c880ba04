import ScalarSolve.Failure

/-!
# Settings of the service

Where the service listens, how it logs, and how much a request may ask for.
-/

namespace ScalarSolve

inductive LogLevel where
  | trace
  | debug
  | info
  | warn
  | error
deriving DecidableEq, Repr

inductive LogFormat where
  | text
  | json
deriving DecidableEq, Repr

inductive Environment where
  | development
  | staging
  | production
deriving DecidableEq, Repr

/-- Why settings are refused. -/
inductive SettingsError where
  | port (number : Nat)
  | logLevel (name : String)
  | logFormat (name : String)
  | environment (name : String)
  | iterationLimit (limit : Nat)
  | timeout (seconds : Nat)
  | address (text : String)
  /-- A file that cannot be read, or one that states no settings, in the words of whoever has tried
  to read it. -/
  | unreadableFile (why : String)
  | malformedFile (why : String)
  | variableNumber (variableName text : String)
deriving DecidableEq, Repr

namespace SettingsError

def message : SettingsError → String
  | port n => "Invalid port number: " ++ toString n ++ ". Must be between 1 and 65535"
  | logLevel name =>
      "Invalid log level: " ++ name ++ ". Must be one of: trace, debug, info, warn, error"
  | logFormat name => "Invalid log format: " ++ name ++ ". Must be one of: text, json"
  | environment name =>
      "Invalid environment: " ++ name ++ ". Must be one of: development, staging, production"
  | iterationLimit n =>
      "Invalid iteration limit: " ++ toString n ++ ". Must be between 1 and "
        ++ toString maxIterationLimit
  | timeout n => "Invalid timeout: " ++ toString n ++ ". Must be at least 1 second"
  | address text => "Invalid socket address: " ++ text
  | unreadableFile why => "Configuration file error: Failed to read config file: " ++ why
  | malformedFile why => "Configuration file error: Failed to parse TOML: " ++ why
  | variableNumber name text =>
      "Environment variable error: " ++ name ++ " is not a valid number: " ++ text

end SettingsError

/-- A name with its letters in lower case.  The names that settings know are ASCII, and no other
letter has an ASCII lower case among theirs. -/
def lowerCase (name : String) : String := name.map Char.toLower

namespace LogLevel

def name : LogLevel → String
  | trace => "trace"
  | debug => "debug"
  | info => "info"
  | warn => "warn"
  | error => "error"

def ofName (text : String) : Except SettingsError LogLevel :=
  match lowerCase text with
  | "trace" => .ok trace
  | "debug" => .ok debug
  | "info" => .ok info
  | "warn" => .ok warn
  | "error" => .ok error
  | _ => .error (.logLevel text)

end LogLevel

namespace LogFormat

def name : LogFormat → String
  | text => "text"
  | json => "json"

def ofName (text : String) : Except SettingsError LogFormat :=
  match lowerCase text with
  | "text" | "pretty" => .ok .text
  | "json" => .ok json
  | _ => .error (.logFormat text)

end LogFormat

namespace Environment

def name : Environment → String
  | development => "development"
  | staging => "staging"
  | production => "production"

def ofName (text : String) : Except SettingsError Environment :=
  match lowerCase text with
  | "development" | "dev" => .ok development
  | "staging" | "stage" => .ok staging
  | "production" | "prod" => .ok production
  | _ => .error (.environment text)

def isProduction (e : Environment) : Bool := e == production

def isDevelopment (e : Environment) : Bool := e == development

end Environment

/-- The settings of the service. -/
structure Settings where
  host : String
  port : Nat
  logLevel : LogLevel
  logFormat : LogFormat
  environment : Environment
  /-- The most iterations that a request may ask for. -/
  maxIterationsLimit : Nat
  requestTimeout : Nat
  shutdownTimeout : Nat
deriving DecidableEq, Repr

namespace Settings

def default : Settings :=
  { host := "0.0.0.0", port := 8080, logLevel := .info, logFormat := .text,
    environment := .development, maxIterationsLimit := maxIterationLimit, requestTimeout := 30,
    shutdownTimeout := 30 }

/-- Port numbers are below this. -/
def portLimit : Nat := 65536

/-- Counts and numbers of seconds are below this. -/
def wordLimit : Nat := 1 <<< 64

/-- The port, the iteration limit and the request timeout are in range. -/
def validate (s : Settings) : Except SettingsError Unit :=
  if s.port = 0 then .error (.port s.port)
  else if s.maxIterationsLimit = 0 ∨ maxIterationLimit < s.maxIterationsLimit then
    .error (.iterationLimit s.maxIterationsLimit)
  else if s.requestTimeout = 0 then .error (.timeout s.requestTimeout)
  else .ok ()

/-- Host and port as one text. -/
def address (s : Settings) : String := s.host ++ ":" ++ toString s.port

end Settings

end ScalarSolve
