import DrawFormula.Proofs.Backtest.Outcomes
import Mathlib.Data.List.Forall2
import Mathlib.Data.List.Perm.Basic
import Mathlib.Data.List.Sort

/-! # The order of the ping numbers

A formula that takes the ping numbers in ascending order cannot tell histories apart whose draws
differ in the draw order of their ping numbers only: each element, and with it the memo, is a
function of what such draws have in common.
-/
namespace DrawFormula

/-! ## Draws -/

namespace Draw

/-- Whether draws agree in everything but the draw order of their ping numbers. -/
structure Reordered (d d' : Draw) : Prop where
  period : d'.period = d.period
  drawn : d'.drawn.Perm d.drawn
  special : d'.special = d.special
  zodiacYear : d'.zodiacYear = d.zodiacYear
  weekday : d'.weekday = d.weekday
  stemBranch : d'.stemBranch = d.stemBranch

theorem numbers_eq (d : Draw) : d.numbers = d.drawn ++ [d.special] := by
  have hplace : 6 < d.numbers.length := by
    rw [d.length_numbers]
    decide
  rw [drawn,special,List.get_eq_getElem,List.take_append_getElem hplace,List.take_of_length_le]
  exact d.length_numbers.le

variable {d d' : Draw} (h : d.Reordered d')
include h

theorem Reordered.sum : d'.sum = d.sum := by
  have hnumbers : d'.numbers.Perm d.numbers := by
    rw [numbers_eq,numbers_eq,h.special]
    exact h.drawn.append_right _
  exact hnumbers.foldr_eq 0

/-- In ascending order the ping numbers are the same. -/
theorem Reordered.ping : d'.ping true = d.ping true := by
  have hperm : (d'.drawn.mergeSort (· ≤ ·)).Perm (d.drawn.mergeSort (· ≤ ·)) :=
    (List.mergeSort_perm ..).trans (h.drawn.trans (List.mergeSort_perm ..).symm)
  exact hperm.eq_of_pairwise' (List.pairwise_mergeSort' (· ≤ ·) _)
    (List.pairwise_mergeSort' (· ≤ ·) _)

theorem Reordered.pingAt (place : Fin 6) : d'.pingAt true place = d.pingAt true place := by
  simp only [Draw.pingAt,List.get_eq_getElem,h.ping]

end Draw

/-! ## Values -/

section Values
variable {d d' : Draw} (h : d.Reordered d')
include h

theorem Element.value_reordered (e : Element) : e.value d' true = e.value d true := by
  cases e with
  | period r => rw [value,value,h.period]
  | total r => rw [value,value,h.sum]
  | ping place a => rw [value,value,h.pingAt,h.zodiacYear]
  | special a => rw [value,value,h.special,h.zodiacYear]
  | weekday => rw [value,value,h.weekday]
  | stem => rw [value,value,h.stemBranch]
  | branch => rw [value,value,h.stemBranch]
  | stemBranch => rw [value,value,h.stemBranch]

/-- Also what a memo remembers is the same. -/
theorem Element.lookup_reordered (e : Element) (cache : Element.Cache) :
    e.lookup d' true cache = e.lookup d true cache := by
  simp only [lookup,h.period,e.value_reordered h]

theorem Expression.substituteAll_reordered (lexemes : List Lexeme) (cache : Element.Cache) :
    substituteAll d' true lexemes cache = substituteAll d true lexemes cache := by
  induction lexemes generalizing cache with
  | nil => rfl
  | cons lexeme rest ih =>
    cases lexeme with
    | name e => simp only [substituteAll,e.lookup_reordered h,ih]
    | char c => simp only [substituteAll,ih]

theorem Expression.evaluate_reordered (t : Text) (cache : Element.Cache) :
    evaluate t d' true cache = evaluate t d true cache := by
  simp only [evaluate,substitute,h.special,substituteAll_reordered h]

end Values

/-! ## Backtests -/

namespace Backtest
variable {history history' : List Draw}

theorem outcomeOf_reordered {d d' : Draw} (h : d.Reordered d') (f : Formula) (raw : ℤ) :
    outcomeOf f d' raw = outcomeOf f d raw := by
  simp only [outcomeOf,h.period,h.special,h.zodiacYear]

theorem outcomesOf_reordered {f : Formula} (hf : f.usesSorted = true) {ps ps' : List (Draw × Draw)}
    (h : List.Forall₂ (fun p p' => p.1.Reordered p'.1 ∧ p.2.Reordered p'.2) ps ps')
    (cache : Element.Cache) : outcomesOf f ps' cache = outcomesOf f ps cache := by
  induction h generalizing cache with
  | nil => rfl
  | cons hpair _ ih =>
    simp only [outcomesOf,hf,Expression.evaluate_reordered hpair.2,outcomeOf_reordered hpair.1,ih]

theorem pairs_reordered (h : List.Forall₂ Draw.Reordered history history') (ownSource : Bool)
    (n : ℕ) : List.Forall₂ (fun p p' => p.1.Reordered p'.1 ∧ p.2.Reordered p'.2)
      (pairs ownSource n history) (pairs ownSource n history') := by
  induction n generalizing history history' ownSource with
  | zero => exact .nil
  | succ n ih =>
    cases h with
    | nil => exact .nil
    | cons hd hrest =>
      refine .cons ⟨hd,?_⟩ (ih hrest false)
      cases ownSource with
      | true => exact hd
      | false =>
        cases hrest with
        | nil => exact hd
        | cons hnext _ => exact hnext

theorem window_reordered (h : List.Forall₂ Draw.Reordered history history') (f : Formula)
    (start : Option ℕ) : List.Forall₂ (fun p p' => p.1.Reordered p'.1 ∧ p.2.Reordered p'.2)
      (window f history start) (window f history' start) := by
  cases start with
  | none => exact pairs_reordered h true f.periods
  | some i => exact pairs_reordered (List.forall₂_drop i h) false f.periods

theorem map_period_reordered (h : List.Forall₂ Draw.Reordered history history') :
    history'.map Draw.period = history.map Draw.period := by
  induction h with
  | nil => rfl
  | cons hd _ ih => rw [List.map_cons,List.map_cons,hd.period,ih]

theorem lastPosition?_congr (h : history'.map Draw.period = history.map Draw.period) (period : ℤ) :
    lastPosition? history' period = lastPosition? history period := by
  have hplace : ∀ history : List Draw, (history.reverse.findIdx? fun d => d.period = period) =
      (history.map Draw.period).reverse.findIdx? (· = period) := by
    intro history
    rw [← List.map_reverse,List.findIdx?_map]
    rfl
  have hlength := congrArg List.length h
  rw [List.length_map,List.length_map] at hlength
  rw [lastPosition?,lastPosition?,hplace,hplace,h,hlength]

/-- A formula that takes the ping numbers in ascending order has the same backtest, whatever the
overrides, the target and the memo, in every history in which the ping numbers were drawn in another
order. The memo is the same afterwards as well. -/
theorem run_reordered (h : List.Forall₂ Draw.Reordered history history') {line : FormulaLine}
    (hrule : line.formula.rule = .sorted) (overrides : Overrides) (target : Option ℤ)
    (cache : Element.Cache) : run (overrides.applyLine line) history' target cache =
      run (overrides.applyLine line) history target cache := by
  have hsorted : (overrides.applyLine line).formula.usesSorted = true := decide_eq_true hrule
  have hstart : target.bind (lastPosition? history') = target.bind (lastPosition? history) := by
    cases target with
    | none => rfl
    | some period => exact lastPosition?_congr (map_period_reordered h) period
  simp only [run,hstart,outcomesOf_reordered hsorted (window_reordered h _ _)]

/-- In ascending order the first ping number predicts the same, in draw order another value. -/
theorem run_reordered_twoDraws :
    let newest := lowDraw 2 9 (by decide)
    let oldest := lowDraw 1 7 (by decide)
    let turned : Draw := { oldest with
      numbers := [6,5,4,3,2,1,7]
      length_numbers := rfl
      nodup_numbers := by decide
      numbers_inRange := by decide }
    let f : Formula := ⟨.sorted,.tail,['平','1','号'],0,2,0,0⟩
    let line : FormulaLine := ⟨f,f.text,0⟩
    List.Forall₂ Draw.Reordered [newest,oldest] [newest,turned] ∧ line.formula.rule = .sorted ∧
      run (Overrides.none.applyLine line) [newest,turned] (some 2) (Memo.empty 5) =
        run (Overrides.none.applyLine line) [newest,oldest] (some 2) (Memo.empty 5) ∧
      predictionFrom { f with rule := .drawn } turned = .ok (6,[6]) ∧
      predictionFrom { f with rule := .drawn } oldest = .ok (1,[1]) := by
  intro newest oldest turned f line
  have hnewest : newest.Reordered newest := ⟨rfl,.refl _,rfl,rfl,rfl,rfl⟩
  have holdest : oldest.Reordered turned := ⟨rfl,by decide,rfl,rfl,rfl,rfl⟩
  have hhistory : List.Forall₂ Draw.Reordered [newest,oldest] [newest,turned] :=
    .cons hnewest (.cons holdest .nil)
  exact ⟨hhistory,rfl,run_reordered hhistory rfl .none (some 2) (Memo.empty 5),
    by decide +kernel,by decide +kernel⟩

end Backtest

end DrawFormula
