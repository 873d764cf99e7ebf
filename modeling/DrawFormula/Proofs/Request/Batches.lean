import DrawFormula.Proofs.Backtest.Shared
import DrawFormula.Worker.Answer
import Mathlib.Algebra.Order.Floor.Div

/-! # Formulas in groups

A worker tests the formulas of a request group after group and hands on the memo. The groups make
up the list of formulas, so that all of them together come to the same backtests as one pass over
the list, or fail as this pass does. The messages on the progress tell the sizes of the groups only.
-/
namespace DrawFormula

/-- Whether a message, in JSON, is one on the progress. -/
def Message.IsProgress (m : Message) : Prop := m.toJson.field? "kind" = some (.lit "progress")

theorem flatten_inGroups {α : Type} (n : ℕ) (xs : List α) : (inGroups n xs).flatten = xs := by
  induction xs using inGroups.induct n with
  | case1 => rw [inGroups,List.flatten_nil]
  | case2 x rest ih => rw [inGroups,List.flatten_cons,ih,List.cons_append,List.take_append_drop]

namespace VerifyRequest

/-! ## Messages on the progress -/

/-- The messages after each of the groups when so many formulas were tested before. -/
def progressAfter (total : ℕ) : ℕ → List (List FormulaLine) → List Message
  | _, [] => []
  | before, lines :: rest =>
    .tested (before + lines.length) total :: progressAfter total (before + lines.length) rest

theorem isProgress_of_mem {total before : ℕ} {groups : List (List FormulaLine)} {m : Message}
    (h : m ∈ progressAfter total before groups) : m.IsProgress := by
  induction groups generalizing before with
  | nil => cases h
  | cons lines rest ih =>
    rcases List.mem_cons.mp h with rfl | hrest
    · rfl
    · exact ih hrest

/-- The messages on the progress of a number of formulas in batches of a size. -/
def progressOver (size total : ℕ) : List Message :=
  (List.range (total ⌈/⌉ size)).map fun i => .tested (min ((i + 1) * size) total) total

theorem ceilDiv_eq_succ {n size : ℕ} (hn : 0 < n) (hsize : 0 < size) :
    n ⌈/⌉ size = (n - size) ⌈/⌉ size + 1 := by
  have hfirst : n + size - 1 = n - 1 + size := by omega
  rw [Nat.ceilDiv_eq_add_pred_div,Nat.ceilDiv_eq_add_pred_div,hfirst,Nat.add_div_right _ hsize]
  rcases Nat.le_total n size with hle | hle
  · rw [Nat.div_eq_of_lt (by omega),Nat.div_eq_of_lt (by omega)]
  · have hrest : n - size + size - 1 = n - 1 := by omega
    rw [hrest]

theorem progressAfter_inGroups (n total before : ℕ) (lines : List FormulaLine) :
    progressAfter total before (inGroups n lines) =
      (List.range (lines.length ⌈/⌉ (n + 1))).map fun i =>
        .tested (before + min ((i + 1) * (n + 1)) lines.length) total := by
  induction lines using inGroups.induct n generalizing before with
  | case1 => simp [inGroups,progressAfter]
  | case2 line rest ih =>
    have hfirst : (line :: rest.take n).length = min (n + 1) (rest.length + 1) := by
      rw [List.length_cons,List.length_take,Nat.succ_min_succ]
    have hlater : (rest.drop n).length = rest.length + 1 - (n + 1) := by
      rw [List.length_drop]
      omega
    rw [inGroups,progressAfter,ih,hfirst,hlater,List.length_cons,
      ceilDiv_eq_succ (Nat.succ_pos _) (Nat.succ_pos n),List.range_succ_eq_map,List.map_cons,
      List.map_map]
    congr 1
    · simp
    · refine List.map_congr_left fun i _ => ?_
      have hnext : (i + 1 + 1) * (n + 1) = (i + 1) * (n + 1) + (n + 1) := Nat.succ_mul ..
      simp only [Function.comp_apply,Nat.succ_eq_add_one,hnext]
      congr 1
      omega

/-- In groups of one size there is a message for each batch, with the number of formulas that have
come up so far. -/
theorem progressAfter_batches {size : ℕ} (h : 0 < size) (lines : List FormulaLine) :
    progressAfter lines.length 0 (inGroups (size - 1) lines) = progressOver size lines.length := by
  rw [progressAfter_inGroups,Nat.sub_add_cancel h,progressOver]
  simp only [Nat.zero_add]

example : progressOver 20 45 = [.tested 20 45,.tested 40 45,.tested 45 45] := rfl

/-! ## Answers -/

section Testing
variable (r : VerifyRequest) (history : List Draw) (batch : Batch)

theorem testBatches_of_ok (groups : List (List FormulaLine)) (tested : List Backtest)
    {cache after : Element.Cache} {bs : List Backtest}
    (h : Backtest.runAll history r.overrides r.targetPeriod groups.flatten cache =
      (.ok bs,after)) :
    r.testBatches history batch groups tested cache =
      progressAfter batch.formulas.length tested.length groups ++
        [.verified (tested ++ bs) batch.diagnostics] := by
  induction groups generalizing tested cache bs with
  | nil =>
    rw [List.flatten_nil] at h
    cases h
    rw [testBatches,progressAfter,List.append_nil,List.nil_append]
  | cons lines rest ih =>
    rw [List.flatten_cons] at h
    rw [testBatches,progressAfter]
    rcases hfirst : Backtest.runAll history r.overrides r.targetPeriod lines cache with
      ⟨e | more,next⟩
    · rw [Backtest.threaded_runAll.append_error hfirst] at h
      cases h
    · rw [Backtest.threaded_runAll.append_ok hfirst] at h
      rcases hrest : Backtest.runAll history r.overrides r.targetPeriod rest.flatten next with
        ⟨e | others,last⟩
      · rw [hrest] at h
        cases h
      · rw [hrest] at h
        cases h
        have hlength : (tested ++ more).length = tested.length + lines.length := by
          rw [List.length_append,Backtest.threaded_runAll.length_eq hfirst]
        dsimp only
        rw [ih (tested ++ more) hrest,hlength,List.append_assoc,List.cons_append]

theorem testBatches_of_error (groups : List (List FormulaLine)) (tested : List Backtest)
    {cache after : Element.Cache} {e : NumeralError}
    (h : Backtest.runAll history r.overrides r.targetPeriod groups.flatten cache =
      (.error e,after)) :
    ∃ before, before <+: progressAfter batch.formulas.length tested.length groups ∧
      r.testBatches history batch groups tested cache =
        before ++ [(RequestFailure.numeral e).message] := by
  induction groups generalizing tested cache with
  | nil =>
    rw [List.flatten_nil] at h
    cases h
  | cons lines rest ih =>
    rw [List.flatten_cons] at h
    rw [testBatches,progressAfter]
    rcases hfirst : Backtest.runAll history r.overrides r.targetPeriod lines cache with
      ⟨e' | more,next⟩
    · rw [Backtest.threaded_runAll.append_error hfirst] at h
      cases h
      exact ⟨[],List.nil_prefix,rfl⟩
    · rw [Backtest.threaded_runAll.append_ok hfirst] at h
      rcases hrest : Backtest.runAll history r.overrides r.targetPeriod rest.flatten next with
        ⟨e' | others,last⟩
      · rw [hrest] at h
        cases h
        have hlength : (tested ++ more).length = tested.length + lines.length := by
          rw [List.length_append,Backtest.threaded_runAll.length_eq hfirst]
        obtain ⟨before,hbefore,hanswer⟩ := ih (tested ++ more) hrest
        rw [hlength] at hbefore
        refine ⟨_ :: before,(List.prefix_cons_inj _).mpr hbefore,?_⟩
        dsimp only
        rw [hanswer,hlength,List.cons_append]
      · rw [hrest] at h
        cases h

end Testing

end VerifyRequest

end DrawFormula
