import DrawFormula.Search.Candidate

/-! # Evolutionary search

Candidates around seeds and from templates come first.  Each generation then mutates the best
formulas found so far and adds free candidates.  The search ends with its generations, when it is
exhausted, or when twice as many formulas are found as are asked for.
-/
namespace DrawFormula.Search

variable {γ : Type} [RandomSource γ]

/-- Counts a candidate, scores it, and says whether it is near enough to the target. -/
def consider (setting : Setting) (candidate : Option Text) (slack : Float) :
    Step γ (List Found) := do
  countProcessed 1
  match candidate with
  | none => return []
  | some text =>
    match ← score setting text with
    | none => return []
    | some r => return if within setting.params r slack then [r] else []

/-- How many elements serve as seeds for each result type. -/
def seedsPerType : Nat := 3

/-- The seeds of a search with their result types and rules. -/
def seeds (p : Params) : List (ResultType × Text × Rule) :=
  p.resultTypes.flatMap fun t =>
    (elementNames.take seedsPerType).flatMap fun seed => Rule.all.map fun rule => (t, seed, rule)

/-- The result types and rules of the candidates from templates. -/
def templateSeeds (p : Params) : List (ResultType × Rule) :=
  p.resultTypes.flatMap fun t => Rule.all.map fun rule => (t, rule)

/-- Considers the candidates around seeds, with twice the tolerance. -/
def considerSeeds (setting : Setting) : List (ResultType × Text × Rule) → Step γ Unit
  | [] => return
  | (t, seed, rule) :: rest => do
    let text ← fromSeed setting.params seed t rule
    keep (← consider setting (some text) 2)
    considerSeeds setting rest

/-- Considers the candidates from templates. -/
def considerTemplates (setting : Setting) : List (ResultType × Rule) → Step γ Unit
  | [] => return
  | (t, rule) :: rest => do
    let text ← fromTemplate setting.params t rule
    keep (← consider setting text 1)
    considerTemplates setting rest

/-- How many of the best formulas are mutated in a generation. -/
def eliteSize : Nat := 20

/-- How many mutations are tried for each of them. -/
def mutationsPerElite : Nat := 3

/-- The best formulas, the order of equals kept. -/
def elite (p : Params) (results : List Found) : List Found :=
  (results.mergeSort fun a b => !ranksBefore p b a).take eliteSize

/-- Considers mutations of formulas, each given as often as it is to be mutated. -/
def considerMutations (setting : Setting) : List Text → List Found → Step γ (List Found)
  | [], fresh => return fresh
  | text :: rest, fresh => do
    let candidate ← mutate setting.params text
    let found ← consider setting candidate 1
    reportIfDue setting
    considerMutations setting rest (fresh ++ found)

/-- Considers free candidates. -/
def considerFree (setting : Setting) : Nat → List Found → Step γ (List Found)
  | 0, fresh => return fresh
  | count + 1, fresh => do
    let text ← randomFormula setting.params
    let found ← consider setting (some text) 1
    considerFree setting count (fresh ++ found)

/-- One generation; the answer says whether enough is found. -/
def generation (setting : Setting) : Step γ Bool := do
  let best := elite setting.params (← get).results
  let parents := best.flatMap fun r => List.replicate mutationsPerElite r.formula
  let fresh ← considerMutations setting parents []
  let fresh ← considerFree setting (setting.params.strategy.population / 2) fresh
  keep fresh
  report
  return setting.params.maxCount * 2 ≤ (← get).results.length

/-- Up to `count` generations. -/
def generations (setting : Setting) : Nat → Step γ Unit
  | 0 => return
  | count + 1 => do
    if ← exhausted setting then return
    if ← generation setting then return
    generations setting count

/-- The evolutionary search. -/
def evolve (setting : Setting) : Step γ Unit := do
  let strategy := setting.params.strategy
  modify fun s => { s with total := strategy.population * strategy.generations }
  considerSeeds setting (seeds setting.params)
  considerTemplates setting (templateSeeds setting.params)
  generations setting strategy.generations

end DrawFormula.Search
