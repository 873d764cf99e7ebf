/-! # Combinations

The combinations of `k` indices below `n` in lexicographic order.  When half of the indices are
chosen, rounded up, the prefix is put to a test, and a prefix that fails is left out with all that
begins with it.
-/
namespace DrawFormula.Search

/-- How many combinations of `k` out of `n` there are. -/
def binomial (n k : Nat) : Nat := (List.range k).foldl (fun acc i => acc * (n - i) / (i + 1)) 1

/-- What a walk over combinations does on its way. -/
structure Visitor (m : Type → Type) where
  /-- Whether nothing more is to be done below the prefix at hand. -/
  exhausted : m Bool
  /-- Whether, once that is so, nothing is to be done below any later prefix either. -/
  ended : m Bool
  /-- Whether a prefix is gone into. -/
  goInto : List Nat → m Bool
  /-- Takes note of a number of combinations that are left out. -/
  leaveOut : Nat → m Unit
  /-- Takes a combination and says whether to go on. -/
  visit : List Nat → m Bool

variable {m : Type → Type} [Monad m]

/-- Goes through a number of indices from `start` on as long as the answer is to go on. -/
def whileGoingOn (f : Nat → m Bool) (start : Nat) : Nat → m Bool
  | 0 => return true
  | count + 1 => do if ← f start then whileGoingOn f (start + 1) count else return false

/-- How many indices a prefix has when it is tested. -/
def prefixLength (k : Nat) : Nat := (k + 1) / 2

/-- Walks the combinations that begin with the chosen indices, kept in reverse, and take `need`
more indices from `start` on.  The answer says whether to go on. -/
@[specialize] def walk (v : Visitor m) (n k : Nat) : Nat → List Nat → Nat → m Bool
  | 0, chosen, _ => v.visit chosen.reverse
  | need + 1, chosen, start => do
    if 1 < k ∧ chosen.length = prefixLength k then
      if ← v.exhausted then return !(← v.ended)
      if !(← v.goInto chosen.reverse) then
        v.leaveOut (binomial (n - start) (k - prefixLength k))
        return true
    whileGoingOn (fun i => walk v n k need (i :: chosen) (i + 1)) start (n - need - start)

/-- Walks all combinations of `k` indices below `n`. -/
def walkAll (v : Visitor m) (n k : Nat) : m Bool := walk v n k k [] 0

end DrawFormula.Search
