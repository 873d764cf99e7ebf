import DrawFormula.Search.Combination
import DrawFormula.Search.Vocabulary
import DrawFormula.Search.State

/-! # Exhaustive search

For each result type, rule and size all combinations of elements are tried in order.  The hit rate
of the first half of a combination tells whether the combinations that begin with it can still
come near the target; those of a hopeless half are left out.
-/
namespace DrawFormula.Search

variable {γ : Type}

/-- The share of its misses that the rest of a combination can make good. -/
def recovery : Float := 0.3

/-- Whether a hit rate in percent can still grow into the tolerance of the target. -/
def canReach (p : Params) (rate : Float) : Bool :=
  p.target - Float.ofNat p.tolerance ≤ rate + (100 - rate) * recovery

/-- Scores the candidate of a prefix once and says whether to go into the prefix; one without a
score is gone into. -/
def survives (setting : Setting) (names : List Text) (candidate : Text) : Step γ Bool := do
  let key := List.intercalate ['+'] names
  let rate ← match (← get).rates[key]? with
    | some rate => pure rate
    | none => do
      let r ← score setting candidate
      let rate := r.map fun r => r.hitRate * 100
      modify fun s => { s with rates := s.rates.insert key rate }
      pure rate
  return match rate with
    | none => true
    | some rate => canReach setting.params rate

/-- Whether to go into a prefix. -/
def prefixSurvives (setting : Setting) (rule : Rule) (t : ResultType) (names : List Text) :
    Step γ Bool := do
  survives setting names (← compose setting.params rule t names)

/-- The names of elements at indices. -/
def namesAt (indices : List Nat) : List Text := indices.filterMap fun i => elementNames[i]?

/-- Takes note of combinations that are left out. -/
def leaveOut (n : Nat) : Step γ Unit :=
  modify fun s => { s with processed := s.processed + n, pruned := s.pruned + n }

/-- Whether enough is found or the search has to end. -/
def finished (setting : Setting) : Step γ Bool := do
  if setting.params.maxCount ≤ (← get).results.length then return true
  exhausted setting

/-- Tries one combination; the answer says whether to go on. -/
def tryCombination (setting : Setting) (rule : Rule) (t : ResultType) (indices : List Nat) :
    Step γ Bool := do
  if ← finished setting then
    report
    return false
  countProcessed 1
  reportIfDue setting
  match ← score setting (← compose setting.params rule t (namesAt indices)) with
  | none => return true
  | some r =>
    if within setting.params r 1 then keep [r]
    return true

/-- Ends the search if evaluations or time are used up.  Without this the walk would only pass over
the remaining prefixes, one by one and without any effect. -/
def endIfSpent (setting : Setting) : Step γ Bool := do
  if isSpent setting (← get) then
    report
    return true
  return false

/-- What the search does on its walk over the combinations of a result type and a rule. -/
def visitor (setting : Setting) (rule : Rule) (t : ResultType) : Visitor (Step γ) where
  exhausted := exhausted setting
  ended := endIfSpent setting
  goInto indices := prefixSurvives setting rule t (namesAt indices)
  leaveOut := leaveOut
  visit := tryCombination setting rule t

/-- The sizes of combinations. -/
def sizes (s : Strategy) : List Nat :=
  List.range' s.leastElements (min s.mostElements elementNames.length + 1 - s.leastElements)

/-- Goes through the sizes; the answer says whether to go on. -/
def trySizes (setting : Setting) (rule : Rule) (t : ResultType) : List Nat → Step γ Bool
  | [] => return true
  | k :: rest => do
    if ← finished setting then
      report
      return false
    if ← walkAll (visitor setting rule t) elementNames.length k then trySizes setting rule t rest
    else return false

/-- Goes through result types and rules, each with hit rates of its own; the answer says whether
to go on. -/
def tryPasses (setting : Setting) : List (ResultType × Rule) → Step γ Bool
  | [] => return true
  | (t, rule) :: rest => do
    modify fun s => { s with rates := ∅ }
    if ← trySizes setting rule t (sizes setting.params.strategy) then tryPasses setting rest
    else return false

/-- How many combinations there are for a result type and a rule. -/
def combinationsPerPass (s : Strategy) : Nat :=
  (sizes s).foldr (fun k count => binomial elementNames.length k + count) 0

/-- The result types and rules of the passes, in order. -/
def passes (p : Params) : List (ResultType × Rule) :=
  p.resultTypes.flatMap fun t => Rule.all.map fun rule => (t, rule)

/-- The exhaustive search. -/
def exhaust (setting : Setting) : Step γ Unit := do
  let p := setting.params
  modify fun s => { s with total := combinationsPerPass p.strategy * (passes p).length }
  if ← tryPasses setting (passes p) then report

end DrawFormula.Search
