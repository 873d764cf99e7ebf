import DrawFormula.Search.State
import DrawFormula.Search.Vocabulary

/-! # Candidates

Candidates are sums of elements drawn at random: around a seed, from a template, by mutation of a
formula, or freely.
-/
namespace DrawFormula.Search

variable {γ : Type} [RandomSource γ]

/-- An item of a list, drawn at random. -/
def pick {α : Type} (xs : List α) (h : xs ≠ []) : Step γ α := drawing (RandomSource.pick xs h)

/-- A number from 0 to below 1, drawn at random. -/
def chance : Step γ Float := drawing RandomSource.unit

/-- A number from `low` to `high`, drawn at random. -/
def between (low high : Nat) : Step γ Nat := drawing (RandomSource.between low high)

/-- Draws an item that is not in use, giving up after `tries` more draws. -/
def pickUnused (used pool : List Text) (h : pool ≠ []) : Nat → Step γ (Option Text)
  | 0 => do
    let e ← pick pool h
    return if used.contains e then none else some e
  | tries + 1 => do
    let e ← pick pool h
    if used.contains e then pickUnused used pool h tries else return some e

/-- How many draws follow the first one in search of an unused item. -/
def moreTries : Nat := 19

/-- Adds up to `count` items of the pool that are not among the elements yet. -/
def fillUnused (pool : List Text) (h : pool ≠ []) : Nat → List Text → Step γ (List Text)
  | 0, elements => return elements
  | count + 1, elements => do
    match ← pickUnused elements pool h moreTries with
    | some e => fillUnused pool h count (elements ++ [e])
    | none => fillUnused pool h count elements

/-- Adds elements around a seed, mostly recommended ones. -/
def growSeed (t : ResultType) : Nat → List Text → Step γ (List Text)
  | 0, elements => return elements
  | count + 1, elements => do
    let x ← chance
    let elements ←
      if 0.3 < x then fillUnused (recommended t) (recommended_ne t) 1 elements
      else fillUnused elementNames elementNames_ne 1 elements
    growSeed t count elements

/-- A candidate of three to eight elements around a seed. -/
def fromSeed (p : Params) (seed : Text) (t : ResultType) (rule : Rule) : Step γ Text := do
  let size ← between 3 8
  compose p rule t (← growSeed t (size - 1) [seed])

theorem recommended_append_ne (t : ResultType) : recommended t ++ elementNames ≠ [] := by
  simp [recommended_ne t]

/-- A candidate from a template, filled up to a size of the strategy; `none` if it has fewer than
three elements in the end. -/
def fromTemplate (p : Params) (t : ResultType) (rule : Rule) : Step γ (Option Text) := do
  let size ← between p.strategy.leastElements p.strategy.mostElements
  let template ← pick (templates t) (templates_ne t)
  let base := template.take size
  let elements ←
    fillUnused (recommended t ++ elementNames) (recommended_append_ne t) (size - base.length) base
  if elements.length < 3 then return none
  return some (← compose p rule t elements)

/-- The most elements of a mutated formula. -/
def mostMutated (periods : Nat) : Nat :=
  if periods ≤ 20 then 20 else if periods ≤ 50 then 15 else 10

/-- The least number of elements that a mutation leaves. -/
def leastMutated : Nat := 2

/-- Exchanges each element for a recommended one with the probability `rate`. -/
def exchange (t : ResultType) (rate : Float) : List Text → Step γ (List Text)
  | [] => return []
  | e :: rest => do
    let x ← chance
    let e ← if x < rate then pick (recommended t) (recommended_ne t) else pure e
    return e :: (← exchange t rate rest)

/-- Adds a recommended element at a random place if there is room. -/
def addOne (t : ResultType) (most : Nat) (elements : List Text) : Step γ (List Text) := do
  let x ← chance
  if x < 0.35 ∧ elements.length < most then
    let place ← between 0 elements.length
    let e ← pick (recommended t) (recommended_ne t)
    return elements.take place ++ e :: elements.drop place
  else return elements

/-- Removes an element at a random place if more than the least number are there. -/
def removeOne (elements : List Text) : Step γ (List Text) := do
  let x ← chance
  if x < 0.2 ∧ leastMutated < elements.length then
    let place ← between 0 (elements.length - 1)
    return elements.eraseIdx place
  else return elements

/-- Puts the elements into a random order. -/
def reorder (elements : List Text) : Step γ (List Text) := do
  let x ← chance
  if x < 0.15 ∧ 1 < elements.length then drawing (RandomSource.shuffle elements)
  else return elements

theorem rules_ne : Rule.all ≠ [] := by simp [Rule.all]

/-- The terms of an expression between its plus signs. -/
def terms (expression : Text) : List Text :=
  (Text.splitAtAll (· = '+') expression).filter fun t => !t.isEmpty

/-- A mutation of a formula; `none` if the text is no formula or too little is left. -/
def mutate (p : Params) (text : Text) : Step γ (Option Text) := do
  match Formula.read text with
  | .error (.fault _) => return none
  | .error (.numeral e) => throw e
  | .ok f =>
    let elements := terms f.expression
    if elements.isEmpty then return none
    let t := f.resultType
    let elements ← exchange t p.strategy.mutationRate elements
    let elements ← addOne t (mostMutated p.periods) elements
    let elements ← removeOne elements
    let elements ← reorder elements
    let x ← chance
    if x < 0.1 then
      let seed ← pick (recommended t) (recommended_ne t)
      let rule ← pick Rule.all rules_ne
      return some (← fromSeed p seed t rule)
    if elements.length < leastMutated then return none
    return some (Formula.text { f with expression := List.intercalate ['+'] elements })

/-- A candidate of one to five recommended elements. -/
def randomFormula (p : Params) : Step γ Text := do
  let t ← pick p.resultTypes p.resultTypes_ne
  let elements ← drawing (RandomSource.shuffle (recommended t))
  let size ← between 1 5
  let rule ← pick Rule.all rules_ne
  compose p rule t (elements.take size)

end DrawFormula.Search
