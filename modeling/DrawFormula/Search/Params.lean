import DrawFormula.ResultType

/-! # Parameters of a search

A search looks for formulas whose hit rate lies near a target.  The strategy says how large the
candidates are and how the space of formulas is explored; the tolerance grows with the number of
periods.
-/
namespace DrawFormula.Search

/-- How formulas are searched for. -/
inductive Strategy where
  | fast | standard | deep
deriving Repr, DecidableEq

namespace Strategy

/-- Every strategy. -/
def all : List Strategy := [fast, standard, deep]

/-- The word for a strategy. -/
def name : Strategy → Text
  | fast => "fast".toList
  | standard => "standard".toList
  | deep => "deep".toList

/-- The strategy that a word names. -/
def ofName? (word : Text) : Option Strategy := all.find? fun s => s.name = word

/-- How many candidates a generation has. -/
def population : Strategy → Nat
  | fast => 150
  | standard => 300
  | deep => 0

/-- How many generations follow each other. -/
def generations : Strategy → Nat
  | fast => 15
  | standard => 25
  | deep => 0

/-- How often an element of a formula is exchanged in a mutation. -/
def mutationRate : Strategy → Float
  | fast => 0.5
  | standard => 0.4
  | deep => 0

/-- The least number of elements of a candidate. -/
def leastElements : Strategy → Nat
  | fast => 1
  | standard => 5
  | deep => 10

/-- The greatest number of elements of a candidate. -/
def mostElements : Strategy → Nat
  | fast => 5
  | standard => 10
  | deep => 15

end Strategy

/-- The parameters of a search. -/
structure Params where
  /-- The target hit rate in percent. -/
  target : Float
  maxCount : Nat
  strategy : Strategy
  resultTypes : List ResultType
  offset : Int
  periods : Nat
  left : Int
  right : Int
  /-- The text that the random source grows from; the engine's one if missing. -/
  seed : Option Text
  /-- The time budget in seconds; the engine's one if missing. -/
  timeBudget : Option Float
  /-- The most formulas to evaluate; the engine's number if missing. -/
  maxEvaluations : Option Int
  maxCount_pos : 0 < maxCount
  resultTypes_ne : resultTypes ≠ []
  periods_pos : 0 < periods

namespace Params

/-- At least 1. -/
def positive (n : Int) : Nat := max 1 n.toNat

/-- The result types to search for: tails if none is named. -/
def typesOrTail (types : List ResultType) : List ResultType :=
  if types.isEmpty then [.tail] else types

theorem typesOrTail_ne (types : List ResultType) : typesOrTail types ≠ [] := by
  cases types <;> simp [typesOrTail]

/-- Parameters from values that need not be in range. -/
def make (target : Float) (maxCount : Int) (strategy : Strategy) (resultTypes : List ResultType)
    (offset periods left right : Int) (seed : Option Text) (timeBudget : Option Float)
    (maxEvaluations : Option Int) : Params where
  target := target
  maxCount := positive maxCount
  strategy := strategy
  resultTypes := typesOrTail resultTypes
  offset := offset
  periods := positive periods
  left := left
  right := right
  seed := seed
  timeBudget := timeBudget
  maxEvaluations := maxEvaluations
  maxCount_pos := by simp only [positive]; omega
  resultTypes_ne := typesOrTail_ne resultTypes
  periods_pos := by simp only [positive]; omega

end Params

/-- The distance in percent points from the target that is allowed over a number of periods. -/
def toleranceFor (periods : Int) : Nat :=
  if periods ≤ 15 then 1
  else if periods ≤ 30 then 2
  else if periods ≤ 50 then 3
  else if periods ≤ 100 then 5
  else 8

/-- The tolerance of a search. -/
def Params.tolerance (p : Params) : Nat := toleranceFor p.periods

/-- Why values are no parameters of a search; what names nothing is given as it is written. -/
inductive ParamsError where
  | unknownStrategy (written : Text)
  | unknownType (written : Text)
deriving Repr, DecidableEq

/-- The wording of the error. -/
def ParamsError.message : ParamsError → String
  | .unknownStrategy written => "unknown strategy: " ++ String.ofList written
  | .unknownType written => String.ofList written ++ " is not a valid ResultType"

end DrawFormula.Search
