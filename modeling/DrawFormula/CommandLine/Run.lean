import DrawFormula.CommandLine.Command
import DrawFormula.Config
import DrawFormula.History.Line
import DrawFormula.History.Table
import DrawFormula.Json.Printer
import DrawFormula.Record
import DrawFormula.Report
import DrawFormula.Search.Run

/-! # Running commands

A command reads its files, and what it finds is written to the standard output or to a file.  A
history is a table if the name of its file says so, and lines of draws otherwise.
-/
namespace DrawFormula.CommandLine

/-- What a command leaves behind. -/
structure Outcome where
  status : Nat
  /-- The standard output. -/
  output : Text
  /-- The file that is written, and its text. -/
  written : Option (Text × Text)
deriving Repr, DecidableEq

/-- Why a command fails. -/
inductive Failure where
  /-- The command line is not followed. -/
  | stop (s : Stop)
  /-- There is no such level of notices. -/
  | unknownLevel (level : Text)
  /-- No level is named, and the configuration has no text for one. -/
  | noLevel
  /-- The configuration has no such value as the command needs. -/
  | config (e : ConfigError)
  | file (e : FileError)
  | table (e : HistoryTableError)
  /-- A number has too many digits. -/
  | numeral (e : NumeralError)
deriving Repr, DecidableEq

/-- The levels of notices. -/
def levels : List String := ["TRACE", "DEBUG", "INFO", "SUCCESS", "WARNING", "ERROR", "CRITICAL"]

/-- The wording for a level that is none. -/
def unknownLevelText (level : Text) : String := "Level '" ++ String.ofList level ++ "' does not exist"

/-- Checks the level that is named, or else the configuration's one. -/
def checkLevel (c : Config) (named : Option Text) : Except Failure Unit :=
  let level? := match named.getD [] with
    | [] => c.logLevel?
    | level => some level
  match level?.map Text.upper with
  | none => .error .noLevel
  | some level =>
    if levels.contains (String.ofList level) then .ok () else .error (.unknownLevel level)

/-- Reads a file. -/
def readFile (files : Files) (path : Text) : Except Failure Text :=
  (files.read path).mapError .file

/-- Whether the name of a file says that it holds a table. -/
def isTable (path : Text) : Bool := Text.lower (Path.suffix path) = ".csv".toList

/-- Reads a history; draws that name no zodiac year have the given one, or the configuration's. -/
def readHistory (config : Config) (files : Files) (path : Text) (year : Option Int) :
    Except Failure (List Draw) := do
  let t ← readFile files path
  let year ← match year with
    | some year => pure year
    | none => config.zodiacYear.mapError .config
  if isTable path then (History.ofTable t year).mapError .table
  else return History.ofText t year

/-- Writes a text to the standard output with a line feed, or to a file. -/
def emit (files : Files) (out : Text) (t : Text) (status : Nat) : Except Failure Outcome :=
  if out.isEmpty then .ok ⟨status, t ++ ['\n'], none⟩
  else do
    let place ← (files.writablePlace out).mapError .file
    return ⟨status, [], some (place.path, t)⟩

/-- Reads formulas. -/
def ParseCommand.run (files : Files) (c : ParseCommand) : Except Failure Outcome := do
  let b ← (Batch.read (← readFile files c.formulas)).mapError .numeral
  let found := Json.record [("formulas", .arr (b.formulas.map FormulaLine.toJson)),
    ("errors", .arr (b.diagnostics.map fun d => .record d.heading))]
  emit files c.out found.indented (if c.strict && !b.diagnostics.isEmpty then 1 else 0)

/-- Tests formulas. -/
def VerifyCommand.run (config : Config) (files : Files) (c : VerifyCommand) :
    Except Failure Outcome := do
  let history ← readHistory config files c.history c.zodiacYear
  let b ← (Batch.read (← readFile files c.formulas)).mapError .numeral
  let size ← config.cacheSize.mapError .config
  let tested ← (Backtest.runAll history c.overrides c.target b.formulas
    (Memo.empty size.toNat)).1.mapError .numeral
  let found := if c.summary then Text.joinLines (Report.summaryLines tested)
    else (Json.arr (tested.map Backtest.toJson)).indented
  emit files c.out found 0

/-- Searches for formulas. -/
def SearchCommand.run (config : Config) (files : Files) (c : SearchCommand) :
    Except Failure Outcome := do
  let history ← readHistory config files c.history c.zodiacYear
  let engine ← config.engine.mapError .config
  let setting := Search.Setting.of engine history c.params fun _ => false
  let start := Search.State.initial (Search.generator engine c.params) engine.cacheSize.toNat
  let found ← (Search.run setting start).1.mapError .numeral
  emit files c.out (Json.arr (found.map Search.Found.toJson)).indented 0

/-- Runs a command. -/
def Command.run (config : Config) (files : Files) : Command → Except Failure Outcome
  | .parse c => c.run files
  | .verify c => c.run config files
  | .search c => c.run config files

/-- Checks the configuration's zodiac year where it stands in for an option: a text has to denote an
integer, as the option's value has. -/
def checkYear (config : Config) (c : Command) : Except Failure Unit :=
  match c.zodiacYear?, config.values .zodiacYear with
  | some none, .str t => if (Text.readInt t).isOk then .ok () else .error (.stop .usage)
  | _, _ => .ok ()

/-- Runs the command that a command line gives. -/
def run (c : Config) (files : Files) (words : List Text) : Except Failure Outcome := do
  let order ← (Order.read words).mapError .stop
  checkYear c order.command
  checkLevel c order.level
  order.command.run c files

end DrawFormula.CommandLine
