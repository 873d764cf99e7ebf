import DrawFormula.Backtest.Basic
import DrawFormula.Proofs.ResultType.Cycle

/-! # Offsets around the cycle

A prediction is reduced into the cycle of its result type before it is expanded. Whole cycles added
to the offset of a formula make no difference to any prediction, hence none to a backtest.
-/
namespace DrawFormula

/-- The formula with so many whole cycles of its result type added to its offset. -/
def Formula.turned (f : Formula) (cycles : ℤ) : Formula :=
  { f with offset := f.offset + f.resultType.cycle * cycles }

/-- The line with so many whole cycles added to the offset of its formula. -/
def FormulaLine.turned (l : FormulaLine) (cycles : ℤ) : FormulaLine :=
  { l with formula := l.formula.turned cycles }

namespace Backtest

theorem outcomeOf_turned (f : Formula) (cycles : ℤ) (record : Draw) (raw : ℤ) :
    outcomeOf (f.turned cycles) record raw = outcomeOf f record raw := by
  have hvalue : f.resultType.reduce (raw + (f.offset + f.resultType.cycle * cycles)) =
      f.resultType.reduce (raw + f.offset) := by
    rw [← add_assoc]
    exact ResultType.reduce_congr (f.resultType.add_cycle_mul_modEq _ _)
  simp only [outcomeOf,Formula.turned,hvalue]

theorem outcomesOf_turned (f : Formula) (cycles : ℤ) (ps : List (Draw × Draw))
    (cache : Element.Cache) : outcomesOf (f.turned cycles) ps cache = outcomesOf f ps cache := by
  induction ps generalizing cache with
  | nil => rfl
  | cons p rest ih =>
    simp only [outcomesOf,ih,outcomeOf_turned]
    rfl

/-- A backtest of the turned line is that of the line itself, but for the line that it names. -/
theorem run_turned (line : FormulaLine) (cycles : ℤ) (history : List Draw) (target : Option ℤ)
    (cache : Element.Cache) : run (line.turned cycles) history target cache =
      ((run line history target cache).1.map fun b => { b with line := line.turned cycles },
        (run line history target cache).2) := by
  have houtcomes := outcomesOf_turned line.formula cycles
    (window line.formula history (target.bind (lastPosition? history))) cache
  simp only [run]
  rw [show (line.turned cycles).formula = line.formula.turned cycles from rfl,
    show window (line.formula.turned cycles) = window line.formula from rfl,houtcomes]
  rcases outcomesOf line.formula _ cache with ⟨e | os,after⟩
  · rfl
  · rfl

end Backtest

/-- A value is expanded to all values of its type that are congruent to one of its neighbours, in
ascending order; there are as many of them as neighbours, or as there are values. Congruent values
are expanded alike, so only the place of an offset in the cycle matters to a backtest. -/
theorem ResultType.expand_neighbours (t : ResultType) (base left right : ℤ) :
    (t.expand base left right).Pairwise (· < ·) ∧
    (∀ v, v ∈ t.expand base left right ↔ v ∈ t.domain ∧
      ∃ i, -max 0 left ≤ i ∧ i ≤ max 0 right ∧ v ≡ base + i [ZMOD t.cycle]) ∧
    ((t.expand base left right).length : ℤ) =
      min (t.cycle : ℤ) (max 0 left + max 0 right + 1) ∧
    t.expand (t.reduce base) left right = t.expand base left right ∧
    (∀ j, t.expand (base + t.cycle * j) left right = t.expand base left right) ∧
    ∀ (line : FormulaLine) (j : ℤ) (history : List Draw) (target : Option ℤ)
      (cache : Element.Cache), Backtest.run (line.turned j) history target cache =
        ((Backtest.run line history target cache).1.map fun b => { b with line := line.turned j },
          (Backtest.run line history target cache).2) := by
  refine ⟨t.pairwise_expand base left right,fun v => ?_,t.length_expand base left right,
    expand_congr (t.reduce_modEq base),fun j => expand_congr (t.add_cycle_mul_modEq base j),
    Backtest.run_turned⟩
  rw [mem_expand]
  constructor
  · rintro ⟨i,hleft,hright,hreduce⟩
    obtain ⟨hv,hcongr⟩ := reduce_eq_iff.mp hreduce
    exact ⟨hv,i,hleft,hright,hcongr⟩
  · rintro ⟨hv,i,hleft,hright,hcongr⟩
    exact ⟨i,hleft,hright,reduce_eq_iff.mpr ⟨hv,hcongr⟩⟩

end DrawFormula
