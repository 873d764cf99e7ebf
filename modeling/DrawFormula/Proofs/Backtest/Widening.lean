import DrawFormula.Proofs.Backtest.Outcomes
import DrawFormula.Proofs.ResultType.Cycle

/-! # Wider expansions

The widths of a formula take no part in its predictions: with other widths a backtest has the same
outcomes, each of them expanded anew. So a hit is never lost where the widths grow, and every period
is a hit where an expansion holds the whole cycle.
-/
namespace DrawFormula

/-! ## Outcomes expanded anew -/

namespace PeriodOutcome

/-- The outcome with its value expanded by other widths. -/
def expandedBy (t : ResultType) (left right : ℤ) (o : PeriodOutcome) : PeriodOutcome :=
  let expanded := t.expand o.value left right
  { o with expanded := expanded, hit := expanded.contains o.actual }

/-- Whether outcomes are of one period, with the same value and the same actual one, so that the
second one expands to no less and is a hit where the first one is. -/
structure Widened (o o' : PeriodOutcome) : Prop where
  period : o'.period = o.period
  value : o'.value = o.value
  actual : o'.actual = o.actual
  expanded : o.expanded ⊆ o'.expanded
  hit : o.hit = true → o'.hit = true

theorem widened_expandedBy (t : ResultType) {left left' right right' : ℤ} (hleft : left ≤ left')
    (hright : right ≤ right') (o : PeriodOutcome) :
    (o.expandedBy t left right).Widened (o.expandedBy t left' right') where
  period := rfl
  value := rfl
  actual := rfl
  expanded := ResultType.expand_subset hleft hright
  hit h := List.contains_iff_mem.mpr
    (ResultType.expand_subset hleft hright (List.contains_iff_mem.mp h))

theorem expandedBy_whole {t : ResultType} {left right : ℤ}
    (hcycle : (t.cycle : ℤ) ≤ left + right + 1) {o : PeriodOutcome} (ho : o.actual ∈ t.domain) :
    (o.expandedBy t left right).expanded = t.domain ∧
      (o.expandedBy t left right).hit = true := by
  have hexpanded : (o.expandedBy t left right).expanded = t.domain :=
    ResultType.expand_eq_domain hcycle
  refine ⟨hexpanded,List.contains_iff_mem.mpr ?_⟩
  rwa [ResultType.expand_eq_domain hcycle]

end PeriodOutcome

/-- The overrides with these widths. -/
def Overrides.withWidths (o : Overrides) (left right : ℤ) : Overrides :=
  { o with left := some left, right := some right }

namespace Backtest
variable {f : Formula}

theorem outcomesOf_widths (f : Formula) (left right : ℤ) (ps : List (Draw × Draw))
    (cache : Element.Cache) : outcomesOf { f with left := left, right := right } ps cache =
      ((outcomesOf f ps cache).1.map (List.map (·.expandedBy f.resultType left right)),
        (outcomesOf f ps cache).2) := by
  induction ps generalizing cache with
  | nil => rfl
  | cons p rest ih =>
    simp only [outcomesOf,Formula.usesSorted]
    rcases Expression.evaluate f.expression p.2 (f.rule = .sorted) cache with ⟨e | raw,after⟩
    · rfl
    · simp only [ih]
      rcases outcomesOf f rest after with ⟨e | os,last⟩
      · rfl
      · rfl

theorem actual_outcomeWith {p : Draw × Draw} {cache after : Element.Cache} {o : PeriodOutcome}
    (h : outcomeWith f p cache = (.ok o,after)) : o.actual ∈ f.resultType.domain := by
  obtain ⟨raw,rfl⟩ := isOutcome_of_outcomeWith h
  exact f.resultType.valueOf_mem_domain p.1.special_bounds _

/-- What was drawn in a period has a value of the result type. -/
theorem actual_mem_domain {ps : List (Draw × Draw)} {cache after : Element.Cache}
    {os : List PeriodOutcome} (h : outcomesOf f ps cache = (.ok os,after)) :
    ∀ o ∈ os, o.actual ∈ f.resultType.domain := by
  induction ps generalizing cache os with
  | nil =>
    cases h
    intro o ho
    cases ho
  | cons p rest ih =>
    obtain ⟨o,next,others,hfirst,hrest,rfl⟩ := (threaded_outcomesOf f).of_cons_ok h
    exact List.forall_mem_cons.mpr ⟨actual_outcomeWith hfirst,ih hrest⟩

/-! ## Backtests -/

section Widths
variable (line : FormulaLine) (history : List Draw) (overrides : Overrides) (target : Option ℤ)
  (cache : Element.Cache)

/-- The outcomes of a backtest, newest first, before they are expanded by the widths to come. -/
def unexpanded : Except NumeralError (List PeriodOutcome) × Element.Cache :=
  let f := overrides.apply line.formula
  outcomesOf f (window f history (target.bind (lastPosition? history))) cache

/-- With any widths a backtest sums up the same outcomes, expanded by these widths. -/
theorem run_withWidths (left right : ℤ) :
    run ((overrides.withWidths left right).applyLine line) history target cache =
      ((unexpanded line history overrides target cache).1.map fun os =>
        ofOutcomes ((overrides.withWidths left right).applyLine line)
          (if (target.bind (lastPosition? history)).isSome then target else none)
          (os.map (·.expandedBy line.formula.resultType left right)),
        (unexpanded line history overrides target cache).2) := by
  have houtcomes := outcomesOf_widths (overrides.apply line.formula) left right
    (window (overrides.apply line.formula) history (target.bind (lastPosition? history))) cache
  change outcomesOf ((overrides.withWidths left right).applyLine line).formula
    (window ((overrides.withWidths left right).applyLine line).formula history
      (target.bind (lastPosition? history))) cache = _ at houtcomes
  simp only [run,houtcomes]
  unfold unexpanded
  dsimp only
  rcases outcomesOf (overrides.apply line.formula) _ cache with ⟨e | os,after⟩
  · rfl
  · rfl

end Widths

theorem count_hits_le {os os' : List PeriodOutcome}
    (h : List.Forall₂ PeriodOutcome.Widened os os') :
    (os.map (·.hit)).count true ≤ (os'.map (·.hit)).count true := by
  induction h with
  | nil => exact le_rfl
  | @cons o o' rest rest' hfirst _ ih =>
    rw [List.map_cons,List.map_cons,List.count_cons,List.count_cons]
    cases ho : o.hit with
    | true =>
      rw [hfirst.hit ho]
      exact Nat.add_le_add_right ih 1
    | false => exact ih.trans (Nat.le_add_right ..)

/-- With wider expansions a backtest fails for the same reason, or it has the same predictions and
loses no hit. If an expansion holds as many values as the cycle, it holds all of them, and every
period is a hit. -/
theorem run_widened (line : FormulaLine) (history : List Draw) (overrides : Overrides)
    (target : Option ℤ) (cache : Element.Cache) {left left' right right' : ℤ}
    (hleft : left ≤ left') (hright : right ≤ right') :
    let backtest (left right : ℤ) :=
      (run ((overrides.withWidths left right).applyLine line) history target cache).1
    (∀ e, backtest left right = .error e ↔ backtest left' right' = .error e) ∧
    (∀ b, backtest left right = .ok b → ∃ b', backtest left' right' = .ok b' ∧
      List.Forall₂ PeriodOutcome.Widened b.outcomes b'.outcomes ∧ b.hitCount ≤ b'.hitCount) ∧
    ((line.formula.resultType.cycle : ℤ) ≤ left + right + 1 →
      ∀ b, backtest left right = .ok b → b.hitCount = b.total ∧
        ∀ o ∈ b.outcomes, o.expanded = line.formula.resultType.domain ∧ o.hit = true) := by
  intro backtest
  simp only [backtest,run_withWidths]
  rcases hos : unexpanded line history overrides target cache with ⟨e | os,after⟩
  · dsimp only [Except.map]
    refine ⟨fun _ => .rfl,?_,fun _ => ?_⟩
    · rintro _ ⟨⟩
    · rintro _ ⟨⟩
  refine ⟨fun _ => ⟨nofun,nofun⟩,?_,?_⟩
  · rintro _ ⟨⟩
    have hwidened : ∀ o ∈ os, (o.expandedBy line.formula.resultType left right).Widened
        (o.expandedBy line.formula.resultType left' right') :=
      fun o _ => o.widened_expandedBy _ hleft hright
    have houtcomes := List.rel_reverse (List.forall₂_map_left_iff.mpr
      (List.forall₂_map_right_iff.mpr (List.forall₂_same.mpr hwidened)))
    exact ⟨_,rfl,houtcomes,count_hits_le houtcomes⟩
  · rintro hcycle _ ⟨⟩
    have hdrawn := actual_mem_domain hos
    have hall : ∀ o ∈ (os.map (·.expandedBy line.formula.resultType left right)).reverse,
        o.expanded = line.formula.resultType.domain ∧ o.hit = true := by
      simp only [List.mem_reverse,List.forall_mem_map]
      exact fun o ho => PeriodOutcome.expandedBy_whole hcycle (hdrawn o ho)
    have hhits := List.count_eq_length.mpr
      (List.forall_mem_map.mpr fun o ho => (hall o ho).2.symm)
    exact ⟨hhits.trans (List.length_map _),hall⟩

theorem run_widened_twoDraws :
    let history := [lowDraw 2 9 (by decide),lowDraw 1 7 (by decide)]
    let backtest (left right : ℤ) := (run ((Overrides.none.withWidths left right).applyLine
      (repeatedTail 2)) history (some 2) (Memo.empty 0)).1
    ((0 : ℤ) ≤ 4 ∧ (2 : ℤ) ≤ 5 ∧ ∃ b b', backtest 0 2 = .ok b ∧ backtest 4 5 = .ok b' ∧
      List.Forall₂ PeriodOutcome.Widened b.outcomes b'.outcomes ∧ b.hitCount ≤ b'.hitCount) ∧
    (((repeatedTail 2).formula.resultType.cycle : ℤ) ≤ 4 + 5 + 1 ∧
      ∃ b, backtest 4 5 = .ok b ∧ b.hitCount = b.total) := by
  intro history backtest
  have hwider := run_widened (repeatedTail 2) history .none (some 2) (Memo.empty 0)
    (by decide : (0 : ℤ) ≤ 4) (by decide : (2 : ℤ) ≤ 5)
  have hwhole := run_widened (repeatedTail 2) history .none (some 2) (Memo.empty 0)
    (le_refl (4 : ℤ)) (le_refl (5 : ℤ))
  have hcycle : ((repeatedTail 2).formula.resultType.cycle : ℤ) ≤ 4 + 5 + 1 := by decide
  obtain ⟨b,hb⟩ : ∃ b, backtest 0 2 = .ok b := by
    cases hrun : backtest 0 2 with
    | ok b => exact ⟨b,rfl⟩
    | error e =>
      have hok : (backtest 0 2).isOk = true := by decide +kernel
      rw [hrun] at hok
      cases hok
  obtain ⟨b',hb',hwidened,hhits⟩ := hwider.2.1 b hb
  exact ⟨⟨by decide,by decide,b,b',hb,hb',hwidened,hhits⟩,hcycle,b',hb',
    (hwhole.2.2 hcycle b' hb').1⟩

end Backtest

end DrawFormula
