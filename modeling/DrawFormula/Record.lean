import DrawFormula.Backtest.Basic
import DrawFormula.Formula.Batch
import DrawFormula.Decimal.Shortest
import DrawFormula.Json.Basic
import DrawFormula.Search.State

/-! # Records in JSON

The JSON forms of draws, formulas, backtests, diagnostics and scores, with their fields in the order in
which they are written.
-/
namespace DrawFormula

/-- The JSON form of a draw. -/
def Draw.toJson (d : Draw) : Json :=
  .record [("period", .int d.period), ("numbers", .arr (d.numbers.map .int)),
    ("zodiac_year", .int d.zodiacYear), ("weekday", Json.opt .int d.weekday),
    ("stem_branch", Json.opt .str d.stemBranch)]

/-- The JSON form of a formula's line. -/
def FormulaLine.toJson (l : FormulaLine) : Json :=
  .record [("rule", .str [l.formula.rule.letter]), ("result_type", .str l.formula.resultType.token),
    ("expression", .str l.formula.expression), ("offset", .int l.formula.offset),
    ("periods", .int l.formula.periods), ("left_expand", .int l.formula.left),
    ("right_expand", .int l.formula.right), ("raw_text", .str l.rawText),
    ("line_index", .int l.index)]

/-- The JSON form of a period's outcome. -/
def PeriodOutcome.toJson (o : PeriodOutcome) : Json :=
  .record [("period", .int o.period), ("result", .int o.value),
    ("expanded", .arr (o.expanded.map .int)), ("target_value", .int o.actual),
    ("hit", .bool o.hit)]

/-- The JSON form of a backtest. -/
def Backtest.toJson (b : Backtest) : Json :=
  .record [("formula", b.line.toJson), ("hits", .arr (b.hits.map .bool)),
    ("hit_count", .int b.hitCount), ("total_periods", .int b.total), ("hit_rate", .float b.hitRate),
    ("results", .arr (b.labels.map .str)),
    ("period_results", .arr (b.outcomes.map PeriodOutcome.toJson)),
    ("line_index", .int b.line.index), ("target_period", Json.opt .int b.target)]

/-- The kind and the wording of a diagnostic. -/
def Diagnostic.heading (d : Diagnostic) : List (String × Json) :=
  [("type", .lit d.kind), ("message", .lit d.message)]

/-- The JSON form of a diagnostic: its kind, its wording and its parts. -/
def Diagnostic.toJson (d : Diagnostic) : Json :=
  let parts := match d with
    | .fault f text line =>
      [("reason", Json.lit f.reason), ("text", .str text), ("line", .int line)]
    | .duplicate text line first =>
      [("text", .str text), ("line", .int line), ("first_line", .int first)]
  .record (d.heading ++ parts)

/-- The JSON form of a scored formula; the fitness has four decimal places. -/
def Search.Found.toJson (r : Search.Found) : Json :=
  .record [("formula", .str r.formula), ("hit_rate", .float r.hitRate),
    ("hit_count", .int r.hitCount), ("total_periods", .int r.total),
    ("fitness", .float (Decimal.roundTo 4 r.fitness))]

end DrawFormula
