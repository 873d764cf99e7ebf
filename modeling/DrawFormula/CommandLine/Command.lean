import DrawFormula.Backtest.Basic
import DrawFormula.CommandLine.Words
import DrawFormula.Search.Params

/-! # Commands

The command line names a level for notices and then a command with options of its own: formulas are
read, tested against a history, or searched for.
-/
namespace DrawFormula.CommandLine

/-- Reads a file of formulas. -/
structure ParseCommand where
  formulas : Text
  /-- Whether a diagnostic makes the command fail. -/
  strict : Bool
  /-- The file for the output; the standard output if empty. -/
  out : Text
deriving Repr, DecidableEq

/-- Tests a file of formulas against a file of draws. -/
structure VerifyCommand where
  formulas : Text
  history : Text
  target : Option Int
  overrides : Overrides
  zodiacYear : Option Int
  /-- Whether a line for each formula is written instead of JSON. -/
  summary : Bool
  out : Text
deriving Repr, DecidableEq

/-- Searches for formulas with a file of draws. -/
structure SearchCommand where
  history : Text
  params : Search.Params
  zodiacYear : Option Int
  out : Text

/-- A command. -/
inductive Command where
  | parse (c : ParseCommand)
  | verify (c : VerifyCommand)
  | search (c : SearchCommand)

/-- A command and the level that is named for notices. -/
structure Order where
  level : Option Text
  command : Command

namespace Command

/-- An option that need not be given. -/
def free (name : String) (kind : ValueKind) : OptionSpec := ⟨name.toList, kind, false⟩

/-- An option that has to be given. -/
def needed (name : String) (kind : ValueKind) : OptionSpec := ⟨name.toList, kind, true⟩

/-- The options before the command. -/
def commonOptions : List OptionSpec := [free "--log_level" .text]

/-- The options of reading formulas. -/
def parseOptions : List OptionSpec :=
  [needed "--formulas" .text, free "--strict" .nothing, free "--out" .text]

/-- The options of testing formulas. -/
def verifyOptions : List OptionSpec :=
  [needed "--formulas" .text, needed "--history" .text, free "--target_period" .integer,
    free "--offset" .integer, free "--periods" .integer, free "--left" .integer,
    free "--right" .integer, free "--zodiac_year" .integer, free "--summary" .nothing,
    free "--out" .text]

/-- The options of searching for formulas. -/
def searchOptions : List OptionSpec :=
  [needed "--history" .text, needed "--target_rate" .number, free "--max_count" .integer,
    free "--strategy" (.oneOf (Search.Strategy.all.map Search.Strategy.name)),
    free "--result_type" (.oneOf (ResultType.all.map ResultType.token)),
    free "--offset" .integer, free "--periods" .integer, free "--left" .integer,
    free "--right" .integer, free "--seed" .integer, free "--seconds" .number,
    free "--zodiac_year" .integer, free "--out" .text]

/-- The options of serving requests. -/
def serveOptions : List OptionSpec :=
  [free "--host" .text, free "--port" .integer, free "--reload" .nothing]

/-- The command that reads formulas, from its options. -/
def ofParse (r : Readout) : Command :=
  .parse ⟨r.text "--formulas", r.has "--strict", r.text "--out"⟩

/-- The command that tests formulas, from its options. -/
def ofVerify (r : Readout) : Command :=
  .verify ⟨r.text "--formulas", r.text "--history", r.int? "--target_period",
    ⟨r.int? "--offset", r.int? "--periods", r.int? "--left", r.int? "--right"⟩,
    r.int? "--zodiac_year", r.has "--summary", r.text "--out"⟩

/-- The command that searches for formulas, from its options. -/
def ofSearch (r : Readout) : Command :=
  let int (name : String) (default : Int) : Int := (r.int? name).getD default
  let strategy := ((r.last? "--strategy").bind Search.Strategy.ofName?).getD .fast
  .search ⟨r.text "--history",
    .make ((r.number? "--target_rate").getD 0) (int "--max_count" 20) strategy
      ((r.all "--result_type").filterMap ResultType.ofToken?) (int "--offset" 0)
      (int "--periods" 15) (int "--left" 0) (int "--right" 0)
      ((r.int? "--seed").map Text.ofInt) (r.number? "--seconds") none,
    r.int? "--zodiac_year", r.text "--out"⟩

/-- The command that a word names, and what is read from the words after it.  Requests are not served
from here, so that only help is given on it. -/
def read (name : Text) (words : List Text) : Except Stop (Readout × Command) :=
  let readBy (options : List OptionSpec) (make : Readout → Command) :=
    (readWords options words).map fun r => (r, make r)
  match String.ofList name with
  | "parse" => readBy parseOptions ofParse
  | "verify" => readBy verifyOptions ofVerify
  | "search" => readBy searchOptions ofSearch
  | "serve" => (readWords serveOptions words).bind fun _ => .error .usage
  | _ => .error .usage

/-- An option as help shows it. -/
def optionHelp (o : OptionSpec) : String :=
  let name := String.ofList o.name ++ (if o.kind = .nothing then "" else " VALUE")
  if o.required then name else "[" ++ name ++ "]"

/-- A command as help shows it. -/
def commandHelp (name : String) (options : List OptionSpec) : String :=
  "  " ++ name ++ " " ++ String.intercalate " " (options.map optionHelp) ++ "\n"

/-- What help shows. -/
def help : String :=
  "usage: " ++ String.intercalate " " (commonOptions.map optionHelp) ++ " COMMAND\n" ++
    commandHelp "parse" parseOptions ++ commandHelp "verify" verifyOptions ++
    commandHelp "search" searchOptions

/-- The zodiac year that a command with such an option is given. -/
def zodiacYear? : Command → Option (Option Int)
  | parse _ => none
  | verify c => some c.zodiacYear
  | search c => some c.zodiacYear

/-- The file that the command writes; empty if it writes none. -/
def output : Command → Text
  | parse c => c.out
  | verify c => c.out
  | search c => c.out

/-- The files that the command reads. -/
def inputs : Command → List Text
  | parse c => [c.formulas]
  | verify c => [c.history, c.formulas]
  | search c => [c.history]

end Command

/-- The order that a command line gives. -/
def Order.read (words : List Text) : Except Stop Order := do
  let (r, words) ← readOptions true (← classifyAll Command.commonOptions words)
  match words with
  | [] => throw .usage
  | name :: words =>
    let (own, command) ← Command.read name words
    if r.leftOver || own.leftOver then throw .usage
    if own.lacksValue then throw .noValue
    return ⟨r.last? "--log_level", command⟩

end DrawFormula.CommandLine
