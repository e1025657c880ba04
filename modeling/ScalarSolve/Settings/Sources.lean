import ScalarSolve.Settings.Basic
import ScalarSolve.Settings.Toml
import ScalarSolve.Text.Blank
import ScalarSolve.Text.Digits

/-!
# Sources of settings

Settings come from a file, then from environment variables, then from the command line; each
overrides the ones before it, and the result is validated.  A file has to be valid on its own.  How
its text is read is left to a reader.
-/

namespace ScalarSolve

/-- A settings file, as it was found. -/
inductive SettingsFile where
  | unreadable (why : String)
  | contents (text : String)
deriving DecidableEq, Repr

/-- How the texts of settings files are read. -/
structure FileReader where
  contents? : String → Option Toml.Contents
  /-- What is said of a text that states no settings. -/
  refusal : String → String

/-- The environment variables that are set. -/
abbrev Variables := String → Option String

/-- What the command line gives. -/
structure CommandLine where
  host : Option String
  port : Option Nat
  logLevel : Option String
  logFormat : Option String
  maxIterations : Option Nat
deriving DecidableEq, Repr

namespace CommandLine

def empty : CommandLine := ⟨none, none, none, none, none⟩

end CommandLine

/-- An update of settings in steps; the steps before one that fails stay done. -/
abbrev Update := ExceptT SettingsError (StateM Settings)

namespace Update

/-- A field is set if there is a value for it. -/
def put {α : Type} (value : Option α) (set : α → Settings → Settings) : Update Unit :=
  match value with
  | some a => modify (set a)
  | none => return

/-- A field is set if there is a text for it, which has to be a value. -/
def putParsed {α : Type} (value : Option String) (parse : String → Except SettingsError α)
    (set : α → Settings → Settings) : Update Unit :=
  match value with
  | none => return
  | some text =>
    match parse text with
    | .ok a => modify (set a)
    | .error e => throw e

/-- The settings after an update, if it succeeds. -/
def apply (u : Update Unit) (s : Settings) : Except SettingsError Settings :=
  match u.run s with
  | (.ok (), s) => .ok s
  | (.error e, _) => .error e

end Update

namespace Settings

/-! ## Files -/

/-- An unsigned integer of a file, below `limit`. -/
def fileNumber (limit : Nat) : Toml.Value → Option Nat
  | .integer n => if 0 ≤ n ∧ n < limit then some n.toNat else none
  | _ => none

def fileText : Toml.Value → Option String
  | .string s => some s
  | _ => none

/-- A named value of a file. -/
def fileName {α : Type} (parse : String → Except SettingsError α) (v : Toml.Value) : Option α := do
  match parse (← fileText v) with
  | .ok a => some a
  | .error _ => none

/-- The field of a file, or its default where the file has none; other uses of its name are
refused. -/
def fileField {α : Type} (c : Toml.Contents) (name : String) (read : Toml.Value → Option α)
    (default : α) : Option α :=
  if c.isTable name then none
  else match c.top? name with
    | some v => read v
    | none => some default

/-- The settings that a file gives; names it does not know are passed over. -/
def ofContents? (c : Toml.Contents) : Option Settings := do
  let d := Settings.default
  return {
    host := ← fileField c "host" fileText d.host
    port := ← fileField c "port" (fileNumber portLimit) d.port
    logLevel := ← fileField c "log_level" (fileName LogLevel.ofName) d.logLevel
    logFormat := ← fileField c "log_format" (fileName LogFormat.ofName) d.logFormat
    environment := ← fileField c "environment" (fileName Environment.ofName) d.environment
    maxIterationsLimit :=
      ← fileField c "max_iterations_limit" (fileNumber wordLimit) d.maxIterationsLimit
    requestTimeout :=
      ← fileField c "request_timeout_secs" (fileNumber wordLimit) d.requestTimeout
    shutdownTimeout :=
      ← fileField c "shutdown_timeout_secs" (fileNumber wordLimit) d.shutdownTimeout }

/-- The settings of a file, valid on their own. -/
def ofFile (reader : FileReader) : SettingsFile → Except SettingsError Settings
  | .unreadable why => .error (.unreadableFile why)
  | .contents text =>
    match (reader.contents? text).bind ofContents? with
    | none => .error (.malformedFile (reader.refusal text))
    | some s => do
      s.validate
      return s

/-! ## Environment variables -/

/-- An unsigned integer below `limit`: decimal digits, perhaps after a plus sign. -/
def unsigned? (limit : Nat) (cs : List Char) : Option Nat :=
  let ds := match cs with
    | '+' :: rest => rest
    | cs => cs
  let n := Text.decimalValue ds
  if !ds.isEmpty && ds.all Char.isDigit && n < limit then some n else none

/-- The number in a variable, blanks around it apart. -/
def variableNumber (name : String) (limit : Nat) (text : String) : Except SettingsError Nat :=
  match unsigned? limit (Text.trimChars text.toList) with
  | some n => .ok n
  | none => .error (.variableNumber name text)

/-- A variable that holds a number. -/
def numberVariable (vars : Variables) (name : String) (limit : Nat)
    (set : Nat → Settings → Settings) : Update Unit :=
  Update.putParsed (vars name) (variableNumber name limit) set

/-- The variables that settings come from. -/
def variableNames : List String :=
  ["ROOTFIND_SERVER_HOST", "ROOTFIND_SERVER_PORT", "ROOTFIND_LOG_LEVEL", "ROOTFIND_LOG_FORMAT",
    "ROOTFIND_ENV", "ROOTFIND_MAX_ITERATIONS", "ROOTFIND_REQUEST_TIMEOUT_SECS",
    "ROOTFIND_SHUTDOWN_TIMEOUT_SECS"]

/-- The variables that are set, in a fixed order. -/
def fromVariables (vars : Variables) : Update Unit := do
  Update.put (vars "ROOTFIND_SERVER_HOST") fun v s ↦ { s with host := v }
  numberVariable vars "ROOTFIND_SERVER_PORT" portLimit fun v s ↦ { s with port := v }
  Update.putParsed (vars "ROOTFIND_LOG_LEVEL") LogLevel.ofName fun v s ↦ { s with logLevel := v }
  Update.putParsed (vars "ROOTFIND_LOG_FORMAT") LogFormat.ofName fun v s ↦
    { s with logFormat := v }
  Update.putParsed (vars "ROOTFIND_ENV") Environment.ofName fun v s ↦ { s with environment := v }
  numberVariable vars "ROOTFIND_MAX_ITERATIONS" wordLimit fun v s ↦
    { s with maxIterationsLimit := v }
  numberVariable vars "ROOTFIND_REQUEST_TIMEOUT_SECS" wordLimit fun v s ↦
    { s with requestTimeout := v }
  numberVariable vars "ROOTFIND_SHUTDOWN_TIMEOUT_SECS" wordLimit fun v s ↦
    { s with shutdownTimeout := v }

/-- Default settings overridden by variables. -/
def ofVariables (vars : Variables) : Except SettingsError Settings := do
  let s ← (fromVariables vars).apply .default
  s.validate
  return s

/-! ## The command line -/

/-- The options that are given, in a fixed order. -/
def fromCommandLine (cli : CommandLine) : Update Unit := do
  Update.put cli.host fun v s ↦ { s with host := v }
  Update.put cli.port fun v s ↦ { s with port := v }
  Update.putParsed cli.logLevel LogLevel.ofName fun v s ↦ { s with logLevel := v }
  Update.putParsed cli.logFormat LogFormat.ofName fun v s ↦ { s with logFormat := v }
  Update.put cli.maxIterations fun v s ↦ { s with maxIterationsLimit := v }

/-- The settings from all sources. -/
def build (reader : FileReader) (file : Option SettingsFile) (vars : Variables)
    (cli : CommandLine) : Except SettingsError Settings := do
  let s ← match file with
    | some f => ofFile reader f
    | none => .ok Settings.default
  let s ← (fromVariables vars).apply s
  let s ← (fromCommandLine cli).apply s
  s.validate
  return s

end Settings

end ScalarSolve
