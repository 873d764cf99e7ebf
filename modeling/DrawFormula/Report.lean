import DrawFormula.Backtest.Streak
import DrawFormula.Formula.Numbering

/-! # Reports on backtests

Views over the backtests of a batch: a line for each, how many formulas covered each recent
special number, how often each label and each number is predicted, and which lines of the batch
pass a filter.
-/
namespace DrawFormula.Report

/-- How many of the newest periods a report shows. -/
def recentPeriods : Nat := 10

/-- A star for a hit, filled, or a miss, hollow. -/
def star (hit : Bool) : Char := if hit then '★' else '☆'

/-- The last `n` items of a list. -/
def lastItems {α : Type} (n : Nat) (xs : List α) : List α := xs.drop (xs.length - n)

/-- One backtest in one line: its place, stars for the recent periods, counts and labels. -/
def summaryLine (place : Nat) (b : Backtest) : Text :=
  Numbering.indexText place ++ (lastItems recentPeriods b.hits).map star ++ '≡' ::
    (Text.ofNat b.total ++ '中' :: (Text.ofNat b.hitCount ++ '次' :: '=' ::
      List.intercalate [','] b.labels))

/-- A line for every backtest. -/
def summaryLines (bs : List Backtest) : List Text := bs.mapIdx summaryLine

/-- Whether a backtest predicted a number that satisfies its draw's special number in that
period. -/
def covers (b : Backtest) (d : Draw) : Bool :=
  match b.outcomes.reverse.find? fun o => o.period = d.period with
  | none => false
  | some o => o.expanded.any fun v =>
      (b.line.formula.resultType.numbersFor v (some d.zodiacYear)).contains d.special

/-- How many formulas covered the special number of each recent draw, newest last.  The draws are
those of the first backtest's window. -/
def coverage (bs : List Backtest) (history : List Draw) : List Nat :=
  match bs with
  | [] => []
  | first :: _ =>
    let start := (first.target.bind fun p => history.findIdx? fun d => d.period = p).getD 0
    let span := if first.total = 0 then recentPeriods else min first.total recentPeriods
    (((history.drop start).take span).map fun d => bs.countP fun b => covers b d).reverse

/-- What the formulas of one result type predict. -/
structure TypeGroup where
  resultType : ResultType
  /-- The number of formulas. -/
  formulas : Nat
  /-- For every label, how many formulas predict it. -/
  counts : List (Text × Nat)
deriving Repr, DecidableEq

/-- The backtests of one result type. -/
def ofType (t : ResultType) (bs : List Backtest) : List Backtest :=
  bs.filter fun b => b.line.formula.resultType = t

/-- The result types of backtests in order of first appearance. -/
def typesOf (bs : List Backtest) : List ResultType :=
  bs.foldl (fun seen b =>
    let t := b.line.formula.resultType
    if t ∈ seen then seen else seen ++ [t]) []

/-- The predicted labels, result type by result type. -/
def groups (bs : List Backtest) : List TypeGroup :=
  (typesOf bs).map fun t =>
    let group := ofType t bs
    ⟨t, group.length, t.domain.map fun v =>
      (t.label v, group.countP fun b => b.labels.contains (t.label v))⟩

/-- How many of a backtest's newest values belong to a number. -/
def timesPredicted (b : Backtest) (zodiacYear : Option Int) (n : Int) : Nat :=
  match b.outcomes.getLast? with
  | none => 0
  | some o => o.expanded.countP fun v =>
      (b.line.formula.resultType.numbersFor v zodiacYear).contains n

/-- For every number from 1 to 49, how many formulas predict it. -/
def numberCounts (bs : List Backtest) (zodiacYear : Option Int) : List (Int × Nat) :=
  Number.all.map fun n => (n, bs.foldr (fun b count => timesPredicted b zodiacYear n + count) 0)

/-! ## Filters -/

/-- A comparison of the hit rate in percent. -/
inductive RateTest where
  | greater | less | equal | between
deriving Repr, DecidableEq

/-- What a backtest has to satisfy. -/
structure Filter where
  rateTest : Option RateTest
  value : Float
  low : Float
  high : Float
  /-- Whether the newest period has to be a hit or a miss. -/
  lastPeriod : Option Bool
  minTrailingMisses : Option Int
  maxMissStreak : Option Int

namespace Filter

/-- The filter that every backtest passes. -/
def any : Filter := ⟨none, 80, 70, 90, none, none, none⟩

/-- The filter's test of the hit rate in percent; two rates less than a point apart are equal. -/
def rateHolds (f : Filter) (percent : Float) : Bool :=
  match f.rateTest with
  | none => true
  | some .greater => f.value < percent
  | some .less => percent < f.value
  | some .equal => (percent - f.value).abs < 1
  | some .between => f.low ≤ percent && percent ≤ f.high

/-- The filter's tests of the hit flags. -/
def hitsHold (f : Filter) (hits : List Bool) : Bool :=
  (f.lastPeriod.all fun wanted => Backtest.lastHit hits = wanted) &&
  (f.minTrailingMisses.all fun least => least ≤ Int.ofNat (Backtest.trailingMisses hits)) &&
  (f.maxMissStreak.all fun most => Int.ofNat (Backtest.longestMisses hits) ≤ most)

/-- Whether a backtest passes. -/
def passes (f : Filter) (b : Backtest) : Bool :=
  f.rateHolds (b.hitRate * 100) && f.hitsHold b.hits

end Filter

/-- The lines of a text, blank ones left out, whose index is among `indexes` or, if not `keep`, is
not among them; numbered anew. -/
def selectLines (keep : Bool) (indexes : List Int) (t : Text) : Text :=
  Numbering.renew ((((Text.splitLines t).mapIdx fun i line => (Int.ofNat i, line)).filter
    fun l => !(Text.strip l.2).isEmpty && indexes.contains l.1 == keep).map (·.2))

/-- The lines of a batch that gave the backtests, numbered anew. -/
def keepLines (t : Text) (bs : List Backtest) : Text := selectLines true (bs.map (·.line.index)) t

/-- The lines of a batch that did not give the backtests, numbered anew. -/
def dropLines (t : Text) (bs : List Backtest) : Text := selectLines false (bs.map (·.line.index)) t

end DrawFormula.Report
