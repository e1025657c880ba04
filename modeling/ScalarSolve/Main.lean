import ScalarSolve.Service.Bodies
import ScalarSolve.Service.Line
import ScalarSolve.Settings.Address
import ScalarSolve.Settings.Arguments

/-!
# The program

Settings come from the command line, the environment and a file.  Requests are read from standard
input, one in a line, and answered on standard output.
-/

namespace ScalarSolve.Main

open Service

/-- The settings file at a path. -/
def readFile (path : String) : IO SettingsFile := do
  try
    return .contents (← IO.FS.readFile path)
  catch e =>
    return .unreadable (toString e)

/-- Settings files are in TOML. -/
def fileReader : FileReader :=
  { contents? := Toml.Contents.ofText?, refusal := fun _ ↦ "no settings in TOML" }

/-- The variables that settings may come from, as the environment has them. -/
def readVariables : IO Variables := do
  let values ← Settings.variableNames.mapM fun name ↦ do
    return (name, ← IO.getEnv name)
  return fun name ↦ (values.lookup name).join

/-- Answers lines until the input ends. -/
partial def serve (s : Settings) (input output : IO.FS.Stream) : IO Unit := do
  let line ← input.getLine
  if line.isEmpty then return
  output.putStrLn (respond .json s (Request.ofLine line)).line
  output.flush
  serve s input output

/-- Builds the settings and serves with them. -/
def start (file : Option String) (options : CommandLine) : IO UInt32 := do
  let file ← file.mapM readFile
  match Settings.build fileReader file (← readVariables) options with
  | .error e =>
    IO.eprintln e.message
    return 1
  | .ok s =>
    match s.socketAddress with
    | .error e =>
      IO.eprintln e.message
      return 1
    | .ok address =>
      IO.eprintln ("Starting server at " ++ address.text)
      serve s (← IO.getStdin) (← IO.getStdout)
      return 0

end ScalarSolve.Main

open ScalarSolve in
def main (arguments : List String) : IO UInt32 := do
  match Command.ofArguments arguments with
  | .error e =>
    IO.eprintln e.message
    return 2
  | .ok .help =>
    IO.print Command.usage
    return 0
  | .ok .version =>
    IO.println Service.version
    return 0
  | .ok (.serve file options) => Main.start file options
