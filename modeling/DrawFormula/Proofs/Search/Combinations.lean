import DrawFormula.Search.Combination
import Mathlib.Algebra.GroupWithZero.Nat
import Mathlib.Data.List.Nodup
import Mathlib.Data.Nat.Choose.Basic
import Mathlib.Data.Nat.Notation

/-! # Combinations in lexicographic order

The combinations of `k` indices are listed without a test of prefixes: a first index, followed by
the combinations of the indices after it. The list holds every increasing list of `k` indices once,
in lexicographic order, and its length is the binomial coefficient that a walk reckons with.
-/
namespace DrawFormula.Search

/-- The combinations of `k` indices from `start` on and below `n`. -/
def combinations (n : ℕ) : ℕ → ℕ → List (List ℕ)
  | 0, _ => [[]]
  | k + 1, start =>
    (List.range' start (n - k - start)).flatMap fun i => (combinations n k (i + 1)).map (i :: ·)

/-- An increasing list is no longer than the range that it lies in. -/
theorem length_add_le_of_increasing {l : List ℕ} {start n : ℕ} (hle : start ≤ n)
    (hl : l.Pairwise (· < ·)) (h : ∀ i ∈ l, start ≤ i ∧ i < n) : l.length + start ≤ n := by
  induction l generalizing start with
  | nil => simpa using hle
  | cons i rest ih =>
    obtain ⟨hlater,hrest⟩ := List.pairwise_cons.mp hl
    obtain ⟨hi,hbounds⟩ := List.forall_mem_cons.mp h
    have hshort := ih hi.2 hrest fun j hj => ⟨hlater j hj,(hbounds j hj).2⟩
    rw [List.length_cons]
    omega

theorem mem_combinations {n k start : ℕ} {l : List ℕ} : l ∈ combinations n k start ↔
    l.length = k ∧ l.Pairwise (· < ·) ∧ ∀ i ∈ l, start ≤ i ∧ i < n := by
  induction k generalizing start l with
  | zero =>
    rw [combinations,List.mem_singleton,List.length_eq_zero_iff]
    constructor
    · rintro rfl
      simp
    · exact And.left
  | succ k ih =>
    simp only [combinations,List.mem_flatMap,List.mem_range'_1,List.mem_map,ih]
    constructor
    · rintro ⟨i,hi,rest,⟨hlength,hincreasing,hbounds⟩,rfl⟩
      refine ⟨by simp [hlength],?_,?_⟩
      · exact List.pairwise_cons.mpr ⟨fun j hj => (hbounds j hj).1,hincreasing⟩
      · refine List.forall_mem_cons.mpr ⟨by omega,fun j hj => ?_⟩
        have hj' := hbounds j hj
        omega
    · rintro ⟨hlength,hl,hbounds⟩
      obtain ⟨i,rest,rfl⟩ := List.exists_cons_of_length_eq_add_one hlength
      obtain ⟨hlater,hincreasing⟩ := List.pairwise_cons.mp hl
      obtain ⟨hi,hrest⟩ := List.forall_mem_cons.mp hbounds
      have hbetween : ∀ j ∈ rest, i + 1 ≤ j ∧ j < n := fun j hj => ⟨hlater j hj,(hrest j hj).2⟩
      -- the indices after the first one need their places below `n`
      have hroom := length_add_le_of_increasing hi.2 hincreasing hbetween
      rw [List.length_cons] at hlength
      exact ⟨i,by omega,rest,⟨by omega,hincreasing,hbetween⟩,rfl⟩

/-- The combinations stand in lexicographic order. -/
theorem combinations_increasing (n k start : ℕ) :
    (combinations n k start).Pairwise (· < ·) := by
  induction k generalizing start with
  | zero => simp [combinations]
  | succ k ih =>
    rw [combinations,List.pairwise_flatMap]
    refine ⟨fun i _ => ?_,?_⟩
    · rw [List.pairwise_map]
      exact (ih (i + 1)).imp fun h => List.cons_lt_cons_iff.mpr (.inr ⟨rfl,h⟩)
    · refine (List.pairwise_lt_range' _ Nat.one_pos).imp fun {i j} hij => ?_
      intro l hl l' hl'
      obtain ⟨rest,-,rfl⟩ := List.mem_map.mp hl
      obtain ⟨rest',-,rfl⟩ := List.mem_map.mp hl'
      exact List.cons_lt_cons_iff.mpr (.inl hij)

theorem nodup_combinations (n k start : ℕ) : (combinations n k start).Nodup :=
  (combinations_increasing n k start).imp fun hlt heq => by
    rw [heq] at hlt
    exact List.lt_irrefl _ hlt

/-- Combinations of different sizes are different. -/
theorem nodup_flatMap_combinations (n : ℕ) {ks : List ℕ} (h : ks.Nodup) :
    (ks.flatMap fun k => combinations n k 0).Nodup := by
  refine List.nodup_flatMap.mpr ⟨fun k _ => nodup_combinations n k 0,h.imp fun hne l hl hl' => ?_⟩
  exact hne ((mem_combinations.mp hl).1.symm.trans (mem_combinations.mp hl').1)

/-! ## How many there are -/

/-- Every factor completes a binomial coefficient, so that the division leaves no rest. -/
theorem binomial_eq_choose (n k : ℕ) : binomial n k = n.choose k := by
  unfold binomial
  induction k with
  | zero => simp
  | succ k ih =>
    rw [List.range_succ,List.foldl_append,ih,List.foldl_cons,List.foldl_nil,
      ← Nat.choose_succ_right_eq,Nat.mul_div_cancel _ k.succ_pos]

/-- The combinations by their first index. -/
theorem sum_choose_range' {n k : ℕ} (start count : ℕ) (h : start + count + k = n) :
    ((List.range' start count).map fun i => (n - (i + 1)).choose k).sum =
      (n - start).choose (k + 1) := by
  induction count generalizing start with
  | zero =>
    rw [List.range'_zero,List.map_nil,List.sum_nil,Nat.choose_eq_zero_of_lt (by omega)]
  | succ count ih =>
    have hstart : n - start = n - (start + 1) + 1 := by omega
    rw [List.range'_succ,List.map_cons,List.sum_cons,ih (start + 1) (by omega),hstart,
      Nat.choose_succ_succ]

theorem length_combinations (n k start : ℕ) :
    (combinations n k start).length = (n - start).choose k := by
  induction k generalizing start with
  | zero => simp [combinations]
  | succ k ih =>
    simp only [combinations,List.length_flatMap,List.length_map,ih]
    by_cases hroom : start + k ≤ n
    · exact sum_choose_range' start (n - k - start) (by omega)
    · have hnone : n - k - start = 0 := by omega
      rw [hnone,Nat.choose_eq_zero_of_lt (by omega)]
      rfl

end DrawFormula.Search
