import DrawFormula.Backtest.Streak
import DrawFormula.Formula.Reader
import DrawFormula.Random.Source
import DrawFormula.Search.Params
import Std.Data.HashSet

/-! # The state of a search

A search keeps the texts it has seen, the formulas it has found, its counts and the messages on
its progress.  What it may use up is part of the setting: a request to stop, a number of
evaluations, and time.  Each text is scored at most once, by a backtest over the newest periods.
-/
namespace DrawFormula.Search

/-- A formula with its score. -/
structure Found where
  formula : Text
  /-- The share of hits. -/
  hitRate : Float
  hitCount : Nat
  total : Nat
  /-- The weight of recent hits. -/
  fitness : Float

/-- A message on the progress of a search. -/
structure Progress where
  current : Nat
  total : Nat
  found : Nat
  results : List Found

/-- What does not change during a search. -/
structure Setting where
  /-- The history, newest draw first. -/
  history : List Draw
  params : Params
  /-- A message follows every so many candidates; none if 0. -/
  interval : Nat
  /-- The most evaluations; 0 for no limit. -/
  evaluationLimit : Int
  /-- Whether the time is used up. -/
  overtime : Bool
  /-- The answer to the question whether to stop, each time it is asked. -/
  stop : Nat → Bool

/-- What changes during a search. -/
structure State (γ : Type) where
  random : γ
  cache : Element.Cache
  seen : Std.HashSet Text
  results : List Found
  /-- How many candidates are dealt with. -/
  processed : Nat
  /-- How many candidates are left out unseen. -/
  pruned : Nat
  /-- How many formulas are tested. -/
  evaluations : Nat
  /-- How many candidates are expected. -/
  total : Nat
  /-- How often the question whether to stop was asked. -/
  asked : Nat
  /-- The hit rates in percent of the prefixes of sums, `none` for a prefix without a score. -/
  rates : Std.HashMap Text (Option Float)
  progress : List Progress

/-- A step of a search: it changes the state and may fail on a number with too many digits. -/
abbrev Step (γ α : Type) := ExceptT NumeralError (StateM (State γ)) α

/-- The state before a search. -/
def State.initial {γ : Type} (random : γ) (cacheSize : Nat) : State γ :=
  ⟨random, Memo.empty cacheSize, ∅, [], 0, 0, 0, 0, 0, ∅, []⟩

variable {γ : Type}

/-- Draws from the source of random numbers. -/
def drawing {α : Type} (f : γ → α × γ) : Step γ α := do
  let s ← get
  let (a, random) := f s.random
  set { s with random := random }
  return a

/-- Asks whether to stop. -/
def asksToStop (setting : Setting) : Step γ Bool := do
  let s ← get
  set { s with asked := s.asked + 1 }
  return setting.stop s.asked

/-- Whether the evaluations are used up. -/
def limitReached (setting : Setting) (s : State γ) : Bool :=
  setting.evaluationLimit ≠ 0 && setting.evaluationLimit ≤ s.evaluations

/-- Whether evaluations or time are used up; they stay so. -/
def isSpent (setting : Setting) (s : State γ) : Bool := limitReached setting s || setting.overtime

/-- Whether the search has to end: on request, or because evaluations or time are used up. -/
def exhausted (setting : Setting) : Step γ Bool := do
  if ← asksToStop setting then return true
  return isSpent setting (← get)

/-- Sends a message on the progress. -/
def report : Step γ Unit :=
  modify fun s => { s with
    progress := s.progress ++
      [⟨s.processed, max s.total s.processed, s.results.length, s.results⟩] }

/-- Counts candidates as dealt with. -/
def countProcessed (n : Nat) : Step γ Unit :=
  modify fun s => { s with processed := s.processed + n }

/-- Sends a message if one is due. -/
def reportIfDue (setting : Setting) : Step γ Unit := do
  let s ← get
  if s.processed % setting.interval = 0 then report

/-- Adds formulas to those found. -/
def keep (found : List Found) : Step γ Unit :=
  modify fun s => { s with results := s.results ++ found }

/-- The sum of elements with the settings of the search. -/
def sumWith (p : Params) (rule : Rule) (t : ResultType) (elements : List Text)
    (offset : Option Int) : Formula :=
  ⟨rule, t, List.intercalate ['+'] elements, offset.getD p.offset, p.periods, p.left, p.right⟩

/-- The text of a sum of elements with the settings of the search. -/
def build (p : Params) (rule : Rule) (t : ResultType) (elements : List Text) (offset : Option Int) :
    Text :=
  (sumWith p rule t elements offset).text

/-- Writes a sum of elements with the settings of the search. -/
def compose (p : Params) (rule : Rule) (t : ResultType) (elements : List Text) : Step γ Text :=
  liftExcept (sumWith p rule t elements none).written

/-- The score of a backtest. -/
def Found.ofBacktest (text : Text) (b : Backtest) : Found :=
  ⟨text, b.hitRate, b.hitCount, b.total, Backtest.recency b.hits⟩

/-- The period of the newest draw, at which every backtest of a search begins. -/
def Setting.anchor (setting : Setting) : Option Int := setting.history.head?.map (·.period)

/-- Scores a text, once in a search; `none` if it was seen before or is no formula. -/
def score (setting : Setting) (text : Text) : Step γ (Option Found) := do
  let s ← get
  if s.seen.contains text then return none
  set { s with seen := s.seen.insert text }
  match Formula.readLine text 0 with
  | .error (.fault _) => return none
  | .error (.numeral e) => throw e
  | .ok line =>
    let s ← get
    let (tested, cache) := Backtest.run line setting.history setting.anchor s.cache
    set { s with evaluations := s.evaluations + 1, cache := cache }
    match tested with
    | .error e => throw e
    | .ok b => return some (Found.ofBacktest text b)

/-- The distance of a hit rate from the target in percent points. -/
def distance (p : Params) (r : Found) : Float := (r.hitRate * 100 - p.target).abs

/-- Whether a hit rate is near the target, the tolerance widened by a factor. -/
def within (p : Params) (r : Found) (slack : Float) : Bool :=
  distance p r ≤ Float.ofNat p.tolerance * slack

/-- Whether `a` comes strictly before `b`: nearer to the target, or equally near and fitter. -/
def ranksBefore (p : Params) (a b : Found) : Bool :=
  if distance p a == distance p b then -a.fitness < -b.fitness else distance p a < distance p b

end DrawFormula.Search
