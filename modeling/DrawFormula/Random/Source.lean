/-! # Sources of random numbers

A source yields numbers between 0 and 1 and natural numbers below a bound, and goes on to its next
state.  Whatever uses random numbers is written for any source, so that what is said about it holds
for every outcome.
-/
namespace DrawFormula

/-- A state from which random numbers are drawn. -/
class RandomSource (γ : Type) where
  /-- A number from 0 to below 1. -/
  unit : γ → Float × γ
  /-- A natural number below a positive bound. -/
  below : (n : Nat) → 0 < n → γ → Fin n × γ

namespace RandomSource

variable {γ α : Type} [RandomSource γ]

/-- An item of a list. -/
def pick (xs : List α) (h : xs ≠ []) (g : γ) : α × γ :=
  let (i, g) := below xs.length (List.length_pos_iff.2 h) g
  (xs.get i, g)

/-- A number from `low` to `high`. -/
def between (low high : Nat) (g : γ) : Nat × γ :=
  let (i, g) := below (high - low + 1) (Nat.succ_pos _) g
  (low + i.val, g)

/-- Swaps each of the places from `i` down to 1 with a place not after it. -/
def shuffleDown : Nat → Array α → γ → Array α × γ
  | 0, xs, g => (xs, g)
  | i + 1, xs, g =>
    let (j, g) := below (i + 2) (Nat.succ_pos _) g
    shuffleDown i (xs.swapIfInBounds (i + 1) j.val) g

/-- The items of a list in random order. -/
def shuffle (xs : List α) (g : γ) : List α × γ :=
  let (ys, g) := shuffleDown (xs.length - 1) xs.toArray g
  (ys.toList, g)

end RandomSource

end DrawFormula
