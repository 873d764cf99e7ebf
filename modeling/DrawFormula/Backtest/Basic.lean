import DrawFormula.Expression.Value
import DrawFormula.Formula.Reader

/-! # Backtests

A formula is tested over a window of the history, which runs from the newest draw to the oldest.
Each draw of the window is predicted from the draw before it in time, so that no draw predicts
itself.  Two draws have no earlier source: the oldest one of the history, and the newest one when
no target period is named, where the value is the prediction for the period to come.
-/
namespace DrawFormula

/-- Settings that replace those of a formula. -/
structure Overrides where
  offset : Option Int
  /-- Ignored unless positive. -/
  periods : Option Int
  left : Option Int
  right : Option Int
deriving Repr, DecidableEq

namespace Overrides

/-- Overrides that replace nothing. -/
def none : Overrides := ⟨.none, .none, .none, .none⟩

/-- The formula with the settings replaced. -/
def apply (o : Overrides) (f : Formula) : Formula :=
  { f with
    offset := o.offset.getD f.offset
    periods := match o.periods with
      | some n => if 0 < n then n.toNat else f.periods
      | .none => f.periods
    left := o.left.getD f.left
    right := o.right.getD f.right }

/-- The line with the settings of its formula replaced. -/
def applyLine (o : Overrides) (l : FormulaLine) : FormulaLine :=
  { l with formula := o.apply l.formula }

end Overrides

/-- The outcome of one period. -/
structure PeriodOutcome where
  period : Int
  /-- The predicted value. -/
  value : Int
  /-- The predicted value with its neighbours. -/
  expanded : List Int
  /-- The value of the special number that was drawn. -/
  actual : Int
  hit : Bool
deriving Repr, DecidableEq

/-- The outcome of a backtest. -/
structure Backtest where
  line : FormulaLine
  /-- The hit flags, oldest first. -/
  hits : List Bool
  hitCount : Nat
  total : Nat
  hitRate : Float
  /-- The labels of the newest period's expanded set. -/
  labels : List Text
  /-- The outcomes of the periods, oldest first. -/
  outcomes : List PeriodOutcome
  /-- The newest period of the window, if one was named and found. -/
  target : Option Int

namespace Backtest

/-- The last position of a period in the history. -/
def lastPosition? (history : List Draw) (period : Int) : Option Nat :=
  (history.reverse.findIdx? fun d => d.period = period).map fun i => history.length - 1 - i

/-- The draws of a window with the draws that predict them, newest first.  The first draw predicts
itself if `ownSource`. -/
def pairs (ownSource : Bool) : Nat → List Draw → List (Draw × Draw)
  | 0, _ => []
  | _, [] => []
  | n + 1, d :: rest => (d, if ownSource then d else rest.head?.getD d) :: pairs false n rest

/-- The window of a formula: without a target it begins at the newest draw, which predicts
itself. -/
def window (f : Formula) (history : List Draw) (start : Option Nat) : List (Draw × Draw) :=
  match start with
  | none => pairs true f.periods history
  | some i => pairs false f.periods (history.drop i)

/-- The outcome of one period, given the raw value of the expression. -/
def outcomeOf (f : Formula) (record : Draw) (raw : Int) : PeriodOutcome :=
  let value := f.resultType.reduce (raw + f.offset)
  let expanded := f.resultType.expand value f.left f.right
  let actual := f.resultType.valueOf record.special (some record.zodiacYear)
  ⟨record.period, value, expanded, actual, expanded.contains actual⟩

/-- The outcomes of a window, newest first; the expression is evaluated in that order. -/
def outcomesOf (f : Formula) :
    List (Draw × Draw) → Element.Cache → Except NumeralError (List PeriodOutcome) × Element.Cache
  | [], cache => (.ok [], cache)
  | (record, source) :: rest, cache =>
    match Expression.evaluate f.expression source f.usesSorted cache with
    | (.error e, cache) => (.error e, cache)
    | (.ok raw, cache) =>
      match outcomesOf f rest cache with
      | (.error e, cache) => (.error e, cache)
      | (.ok outcomes, cache) => (.ok (outcomeOf f record raw :: outcomes), cache)

/-- The share of hits, 0 for no period. -/
def rate (hitCount total : Nat) : Float :=
  if total = 0 then 0 else Float.ofNat hitCount / Float.ofNat total

/-- Sums up outcomes given newest first. -/
def ofOutcomes (line : FormulaLine) (target : Option Int) (newestFirst : List PeriodOutcome) :
    Backtest :=
  let outcomes := newestFirst.reverse
  let hits := outcomes.map (·.hit)
  let hitCount := hits.count true
  let latest := (newestFirst.head?.map (·.expanded)).getD []
  ⟨line, hits, hitCount, outcomes.length, rate hitCount outcomes.length,
    latest.map line.formula.resultType.label, outcomes, target⟩

/-- Tests a formula.  A target period that is not in the history counts as none. -/
def run (line : FormulaLine) (history : List Draw) (target : Option Int) (cache : Element.Cache) :
    Except NumeralError Backtest × Element.Cache :=
  let start := target.bind (lastPosition? history)
  match outcomesOf line.formula (window line.formula history start) cache with
  | (.error e, cache) => (.error e, cache)
  | (.ok outcomes, cache) =>
    (.ok (ofOutcomes line (if start.isSome then target else none) outcomes), cache)

/-- Tests formulas one after the other with one memo of element values. -/
def runAll (history : List Draw) (overrides : Overrides) (target : Option Int) :
    List FormulaLine → Element.Cache → Except NumeralError (List Backtest) × Element.Cache
  | [], cache => (.ok [], cache)
  | line :: rest, cache =>
    match run (overrides.applyLine line) history target cache with
    | (.error e, cache) => (.error e, cache)
    | (.ok tested, cache) =>
      match runAll history overrides target rest cache with
      | (.error e, cache) => (.error e, cache)
      | (.ok others, cache) => (.ok (tested :: others), cache)

end Backtest

end DrawFormula
