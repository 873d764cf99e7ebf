import DrawFormula.Backtest.Basic

/-! # Streaks and recency

Statistics over the hit flags of a backtest, which are in order from the oldest period to the
newest.
-/
namespace DrawFormula.Backtest

/-- Whether the newest period is a hit. -/
def lastHit (hits : List Bool) : Bool := hits.getLast?.getD false

/-- The number of misses after the last hit. -/
def trailingMisses (hits : List Bool) : Nat := (hits.reverse.takeWhile fun hit => !hit).length

/-- The number of hits after the last miss. -/
def trailingHits (hits : List Bool) : Nat := (hits.reverse.takeWhile fun hit => hit).length

/-- The longest streak of misses, given the longest and the current one so far. -/
def longestMissesFrom (best current : Nat) : List Bool → Nat
  | [] => best
  | true :: rest => longestMissesFrom best 0 rest
  | false :: rest => longestMissesFrom (max best (current + 1)) (current + 1) rest

/-- The longest streak of misses. -/
def longestMisses (hits : List Bool) : Nat := longestMissesFrom 0 0 hits

/-- The weights of the hits, from the place `i` of `n` on, added to a sum.  The newest period
weighs 1 and the oldest `1 / n`. -/
def weightsFrom (n : Nat) (sum : Float) (i : Nat) : List Bool → Float
  | [] => sum
  | hit :: rest =>
    weightsFrom n (if hit then sum + Float.ofNat (i + 1) / Float.ofNat n else sum) (i + 1) rest

/-- Recent hits weigh more, and a streak of hits up to the newest period adds to that. -/
def recency (hits : List Bool) : Float :=
  if hits.isEmpty then 0
  else weightsFrom hits.length 0 0 hits + Float.ofNat (trailingHits hits) * 0.5

end DrawFormula.Backtest
