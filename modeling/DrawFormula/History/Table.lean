import DrawFormula.Csv.Column
import DrawFormula.Draw.Fields

/-! # Draws in tables

A table of draws has columns for the period, the seven numbers, the zodiac year, the weekday and
the stem and branch.  Reading passes over rows in which the period or a number is missing, keeps
the first row of each period and puts the newest first; fractions are cut off afterwards.
-/
namespace DrawFormula

/-- Why a text is no table of draws. -/
inductive HistoryTableError where
  /-- The text is no table. -/
  | fault (f : Csv.TableFault)
  /-- A column is missing. -/
  | missingColumn (name : String)
  /-- A cell is not taken for an integer. -/
  | integer (e : IntegerError)
  /-- A row breaks a rule of draws. -/
  | draw (e : DrawError)
deriving Repr, DecidableEq

namespace History

/-- The wording for a missing column. -/
def missingColumn (name : String) : String := "Missing column: " ++ name

/-- The columns of the numbers. -/
def numberColumns : List String := ["n1", "n2", "n3", "n4", "n5", "n6", "n7"]

/-- The columns that have to be there. -/
def requiredColumns : List String := "period" :: numberColumns

/-- All columns in the order in which they are written. -/
def allColumns : List String := requiredColumns ++ ["zodiac_year", "weekday", "stem_branch"]

/-- The cells of a row of draws. -/
structure TableRow where
  period : Csv.Cell
  numbers : List Csv.Cell
  zodiacYear : Csv.Cell
  weekday : Csv.Cell
  stemBranch : Csv.Cell

/-- Whether the period and all numbers are there. -/
def TableRow.isComplete (r : TableRow) : Bool :=
  !r.period.isMissing && r.numbers.all fun c => !c.isMissing

/-- The integer in a cell, its fraction cut off. -/
def cellInt : Csv.Cell → Except IntegerError Int
  | .int i => .ok i
  | .float x => (Json.float x).toInteger
  | .bool b => .ok (if b then 1 else 0)
  | .text t => (Text.readInt t).mapError .numeral
  | .missing => .error .notANumber

/-- The text in a cell. -/
def cellText : Csv.Cell → Option Text
  | .missing => none
  | .int i => some (Text.ofInt i)
  | .float x => some (Decimal.spelled x)
  | .bool b => some (if b then "True".toList else "False".toList)
  | .text t => some t

/-- The draw of a row. -/
def TableRow.draw (r : TableRow) : Except HistoryTableError Draw := do
  let period ← (cellInt r.period).mapError .integer
  let numbers ← (r.numbers.mapM cellInt).mapError .integer
  let year ← (cellInt r.zodiacYear).mapError .integer
  let weekday ← if r.weekday.isMissing then pure none
    else ((cellInt r.weekday).mapError HistoryTableError.integer).map some
  (Draw.make period numbers year weekday (cellText r.stemBranch)).mapError .draw

/-- The first row of each period. -/
def firstRows (rows : List TableRow) : List TableRow :=
  (rows.foldl (fun kept r =>
    if kept.any fun earlier => earlier.period.sameNumber r.period then kept else r :: kept)
    []).reverse

/-- The numbers of a column, or the error that it is missing. -/
def numberColumn (t : Csv.Table) (name : String) : Except HistoryTableError (List Csv.Cell) :=
  match t.column? name with
  | some cells => .ok (Csv.numbers cells)
  | none => .error (.missingColumn name)

/-- The cell of a row in a column, missing if the column is. -/
def cellAt (column : Option (List Csv.Cell)) (i : Nat) : Csv.Cell :=
  ((column.getD [])[i]?).getD .missing

/-- The rows of a table; a year that is missing is the default one. -/
def tableRows (t : Csv.Table) (defaultYear : Int) : Except HistoryTableError (List TableRow) := do
  let periods ← numberColumn t "period"
  let numbers ← numberColumns.mapM (numberColumn t)
  let years := (t.column? "zodiac_year").map Csv.numbers
  let year (i : Nat) : Csv.Cell := match cellAt years i with
    | .missing => .int defaultYear
    | c => c
  return (List.range t.size).map fun i =>
    ⟨cellAt (some periods) i, numbers.map fun cells => cellAt (some cells) i, year i,
      cellAt (t.column? "weekday") i, cellAt (t.column? "stem_branch") i⟩

/-- The draws of a table, newest first. -/
def ofTable (text : Text) (defaultYear : Int) : Except HistoryTableError (List Draw) := do
  let t ← (Csv.Table.read text).mapError .fault
  let rows ← tableRows t defaultYear
  let rows := firstRows (rows.filter TableRow.isComplete)
  (rows.mergeSort fun a b => a.period.atLeast b.period).mapM TableRow.draw

/-- How weekdays are written: as integers if every draw has one, else with a decimal point. -/
def weekdayText (allKnown : Bool) : Option Int → Text
  | none => []
  | some d => if allKnown then Text.ofInt d else Decimal.text (Float.ofInt d)

/-- The fields of a draw's row. -/
def rowOf (allKnown : Bool) (d : Draw) : List Text :=
  Text.ofInt d.period :: d.numbers.map Text.ofInt ++
    [Text.ofInt d.zodiacYear, weekdayText allKnown d.weekday, d.stemBranch.getD []]

/-- Whether weekdays are written as integers: every draw has one, or they do not all fit into 64
bits of one kind. -/
def integralWeekdays (draws : List Draw) : Bool :=
  let known := draws.filterMap fun d => d.weekday
  known.length = draws.length || !(known.all Csv.isWord || known.all Csv.isUnsignedWord)

/-- The table of draws as text. -/
def tableText (draws : List Draw) : Text :=
  Csv.rowText (allColumns.map String.toList) ++
    draws.flatMap fun d => Csv.rowText (rowOf (integralWeekdays draws) d)

end History

end DrawFormula
