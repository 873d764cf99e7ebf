import DrawFormula.Random.Twister

/-! # Engine settings

What backtests and searches take from the configuration.
-/
namespace DrawFormula

/-- The settings of the engine. -/
structure Engine where
  /-- How many element values are remembered; none if not positive. -/
  cacheSize : Int
  /-- How many formulas are tested between two messages on the progress. -/
  batchSize : Nat
  /-- A message on the progress follows every so many candidates; none if 0. -/
  progressInterval : Nat
  /-- The time budget of a search in seconds; 0 for none. -/
  timeBudget : Float
  /-- The most evaluations of a search; 0 for no limit. -/
  maxEvaluations : Int
  /-- The seed of searches that name none. -/
  searchSeed : Option Text

namespace Engine

/-- The least number of formulas in a batch. -/
def leastBatch : Nat := 20

/-- The greatest number of formulas in a batch. -/
def greatestBatch : Nat := 50

/-- A batch size within its bounds. -/
def clampBatch (n : Int) : Nat := min (max n.toNat leastBatch) greatestBatch

/-- The settings of an empty environment. -/
def default : Engine := ⟨20000, 50, 50, 60, 200000, none⟩

end Engine

end DrawFormula
