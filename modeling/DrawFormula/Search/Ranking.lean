import DrawFormula.Search.State

/-! # The ranking of what is found

Each formula counts once, by its first occurrence.  Formulas are ordered by hit rate, descending
for a target of at least fifty percent and ascending otherwise, then by descending fitness, and
equals stay in the order in which they were found.
-/
namespace DrawFormula.Search

/-- The first occurrence of each formula. -/
def distinct (results : List Found) : List Found :=
  results.foldl (fun kept r =>
    if kept.any fun earlier => earlier.formula = r.formula then kept else kept ++ [r]) []

/-- Whether `a` may stand before `b` by fitness. -/
def fitterFirst (a b : Found) : Bool := !(-b.fitness < -a.fitness)

/-- Whether `a` may stand before `b` by hit rate. -/
def rateFirst (descending : Bool) (a b : Found) : Bool :=
  if descending then !(a.hitRate < b.hitRate) else !(b.hitRate < a.hitRate)

/-- The ranked formulas, at most as many as asked for. -/
def rank (p : Params) (results : List Found) : List Found :=
  (((distinct results).mergeSort fitterFirst).mergeSort (rateFirst (50 ≤ p.target))).take p.maxCount

end DrawFormula.Search
