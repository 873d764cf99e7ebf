import DrawFormula.Engine
import DrawFormula.Search.Evolution
import DrawFormula.Search.Exhaustion
import DrawFormula.Search.Ranking

/-! # Searches

A search starts from a history and parameters, follows the strategy that the parameters name, and
ends with the ranking of what it found.
-/
namespace DrawFormula.Search

/-- The setting of a search: what the parameters leave open is taken from the engine.  A time
budget that is not 0 counts as used up if it is negative. -/
def Setting.of (engine : Engine) (history : List Draw) (p : Params) (stop : Nat → Bool) : Setting :=
  ⟨history, p, engine.progressInterval,
    p.maxEvaluations.getD engine.maxEvaluations, p.timeBudget.getD engine.timeBudget < 0, stop⟩

/-- The generator of a search: its seed is the parameters' or the engine's. -/
def generator (engine : Engine) (p : Params) : Twister :=
  Twister.ofTexts ["search".toList, p.seed.getD (engine.searchSeed.getD ['0'])]

variable {γ : Type} [RandomSource γ]

/-- Follows the strategy that the parameters name. -/
def explore (setting : Setting) : Step γ Unit :=
  match setting.params.strategy with
  | .deep => exhaust setting
  | _ => evolve setting

/-- The outcome of a step and the state it leaves. -/
def Step.runFrom {α : Type} (step : Step γ α) (s : State γ) : Except NumeralError α × State γ :=
  let (result, s) := step.run.run s
  (result, s)

/-- Searches the history; nothing is found in an empty one. -/
def run (setting : Setting) (s : State γ) : Except NumeralError (List Found) × State γ :=
  if setting.history.isEmpty then (.ok [], s)
  else
    match Step.runFrom (explore setting) s with
    | (.error e, s) => (.error e, s)
    | (.ok _, s) => (.ok (rank setting.params s.results), s)

end DrawFormula.Search
