import DrawFormula.CommandLine.Run

/-! # The program

The environment, the files and the words of the command line are handed to the library; what it
answers is printed or written.
-/
namespace DrawFormula.Main

/-- The text of a file, if there is one that can be read. -/
def readFile? (path : Text) : IO (Option Text) := do
  let read ← (IO.FS.readFile (String.ofList path)).toBaseIO
  return read.toOption.map String.toList

/-- Whether there is anything at a path. -/
def leadsSomewhere (path : Text) : IO Bool := do
  return (← (IO.FS.realPath (String.ofList path)).toBaseIO).toOption.isSome

/-- The files among the paths and among what the paths lead through.  What is there but is no file
counts as a folder. -/
def readFiles (paths : List Text) : IO Files := do
  let stages := paths.flatMap Path.stages
  let texts ← stages.mapM fun path => do
    return ((← readFile? path).map fun t => (path, t)).toList
  let others := stages.filter fun p => !texts.flatten.any fun f => f.1 = p
  return ⟨texts.flatten, ← others.filterM leadsSomewhere⟩

/-- The variables of the environment that have a meaning. -/
def readEnvironment : IO Config.Environment := do
  let read ← Config.variableNames.mapM fun name => do
    let v ← IO.getEnv name
    return (v.map fun v => (name.toList, v.toList)).toList
  return read.flatten

/-- The configuration of the environment, with the data folder below the current one. -/
def readConfig : IO (Except ConfigError Config) := do
  let env ← readEnvironment
  match Config.ofEnvironment ['.'] env with
  | .error e => return .error e
  | .ok values => return Config.load ['.'] env (← readFiles [Config.filePath env values none]) none

/-- The wording of a failure. -/
def failureText : CommandLine.Failure → String
  | .stop _ => CommandLine.Command.help
  | .unknownLevel level => CommandLine.unknownLevelText level
  | .noLevel => "the configuration names no level"
  | .config _ => "the configuration has no such value"
  | .file (.missing path) => "no such file: " ++ String.ofList path
  | .file (.isFolder path) => "a folder: " ++ String.ofList path
  | .file (.notFolder path) => "not in a folder: " ++ String.ofList path
  | .file (.tooLong path) => "too long a path: " ++ String.ofList path
  | .file .unnamable => FileError.unnamableText
  | .table (.missingColumn name) => History.missingColumn name
  | .table (.draw e) => e.message
  | .table _ => "the table of draws is not readable"
  | .numeral e => e.message

/-- The exit code of a failure; a command line that is not understood has one of its own. -/
def failureCode : CommandLine.Failure → UInt32
  | .stop _ => 2
  | _ => 1

/-- The paths that a command line names. -/
def pathsOf (words : List Text) : List Text :=
  match CommandLine.Order.read words with
  | .ok order => order.command.output :: order.command.inputs
  | .error _ => []

/-- Runs the command line with a configuration. -/
def runWith (config : Config) (words : List Text) : IO UInt32 := do
  match CommandLine.run config (← readFiles (pathsOf words)) words with
  | .error (.stop .help) =>
    IO.print CommandLine.Command.help
    return 0
  | .error e =>
    IO.eprintln (failureText e)
    return failureCode e
  | .ok outcome =>
    IO.print (String.ofList outcome.output)
    if let some (path, t) := outcome.written then
      IO.FS.writeFile (String.ofList path) (String.ofList t)
    return outcome.status.toUInt32

end DrawFormula.Main

/-- Runs the command line. -/
def main (args : List String) : IO UInt32 := do
  match ← DrawFormula.Main.readConfig with
  | .error _ =>
    IO.eprintln "the configuration is not readable"
    return 1
  | .ok config => DrawFormula.Main.runWith config (args.map String.toList)
