import DrawFormula.Search.Ranking
import Mathlib.Data.Finset.Card
import Mathlib.Data.List.Induction

/-! # What the ranking selects

The ranking keeps the first occurrence of each formula, at most as many as asked for. It is a part of
the list of all first occurrences, sorted.
-/
namespace DrawFormula.Search

/-! ## First occurrences -/

section First
variable {results : List Found} {r : Found}

/-- Whether a formula with its score is the first one of that formula. -/
def IsFirst (results : List Found) (r : Found) : Prop :=
  (results.find? fun earlier => earlier.formula = r.formula) = some r

/-- The place at which a formula is first found. -/
def place (results : List Found) (r : Found) : ℕ := (results.map Found.formula).idxOf r.formula

theorem distinct_concat (results : List Found) (r : Found) : distinct (results ++ [r]) =
    if (distinct results).any fun earlier => earlier.formula = r.formula then distinct results
    else distinct results ++ [r] := by
  rw [distinct,List.foldl_append]
  rfl

theorem formulas_distinct (results : List Found) (x : Text) :
    x ∈ (distinct results).map Found.formula ↔ x ∈ results.map Found.formula := by
  induction results using List.reverseRecOn with
  | nil => rfl
  | append_singleton results r ih =>
    rw [distinct_concat,List.map_append,List.mem_append,← ih]
    split
    · next hold =>
      have hmem : r.formula ∈ (distinct results).map Found.formula := by simpa using hold
      simp only [List.map_singleton,List.mem_singleton,iff_self_or]
      rintro rfl
      exact hmem
    · rw [List.map_append,List.mem_append]

theorem distinct_concat_of_mem (h : r.formula ∈ results.map Found.formula) :
    distinct (results ++ [r]) = distinct results := by
  rw [← formulas_distinct] at h
  rw [distinct_concat,if_pos (by simpa using h)]

theorem distinct_concat_of_not_mem (h : r.formula ∉ results.map Found.formula) :
    distinct (results ++ [r]) = distinct results ++ [r] := by
  rw [← formulas_distinct] at h
  rw [distinct_concat,if_neg (by simpa using h)]

theorem IsFirst.mem (h : IsFirst results r) : r ∈ results := List.mem_of_find?_eq_some h

theorem find?_formula_eq_none {x : Text} :
    (results.find? fun earlier => earlier.formula = x) = none ↔
      x ∉ results.map Found.formula := by
  simp [List.find?_eq_none]

theorem mem_distinct : r ∈ distinct results ↔ IsFirst results r := by
  induction results using List.reverseRecOn with
  | nil => simp [distinct,IsFirst]
  | append_singleton results x ih =>
    unfold IsFirst at ih ⊢
    rw [List.find?_append,List.find?_singleton]
    by_cases hx : x.formula ∈ results.map Found.formula
    · rw [distinct_concat_of_mem hx,ih]
      cases hfind : results.find? fun earlier => earlier.formula = r.formula with
      | some y => rfl
      | none =>
        have hne : x.formula ≠ r.formula := fun heq => find?_formula_eq_none.mp hfind (heq ▸ hx)
        simp [hne]
    · rw [distinct_concat_of_not_mem hx,List.mem_append,ih,List.mem_singleton]
      cases hfind : results.find? fun earlier => earlier.formula = r.formula with
      | some y =>
        have hne : r ≠ x := by
          rintro rfl
          simp [find?_formula_eq_none.mpr hx] at hfind
        simp [hne]
      | none =>
        rw [Option.none_or]
        split
        · simp [eq_comm]
        · next hne =>
          have hother : r ≠ x := by
            rintro rfl
            simp at hne
          simp [hother]

theorem pairwise_place (results : List Found) :
    (distinct results).Pairwise fun a b => place results a < place results b := by
  induction results using List.reverseRecOn with
  | nil => exact .nil
  | append_singleton results r ih =>
    have hold : ∀ a ∈ distinct results, place (results ++ [r]) a = place results a ∧
        place results a < results.length := by
      intro a ha
      have hmem := (formulas_distinct results a.formula).mp (List.mem_map_of_mem ha)
      rw [place,List.map_append,List.idxOf_append_of_mem hmem]
      exact ⟨rfl,by simpa [place] using List.idxOf_lt_length_of_mem hmem⟩
    have hkept : (distinct results).Pairwise fun a b =>
        place (results ++ [r]) a < place (results ++ [r]) b := by
      refine ih.imp_of_mem fun ha hb hlt => ?_
      rwa [(hold _ ha).1,(hold _ hb).1]
    by_cases hr : r.formula ∈ results.map Found.formula
    · rwa [distinct_concat_of_mem hr]
    · have hlast : place (results ++ [r]) r = results.length := by
        rw [place,List.map_append,List.idxOf_append_of_notMem hr]
        simp
      rw [distinct_concat_of_not_mem hr,List.pairwise_append]
      refine ⟨hkept,List.pairwise_singleton _ _,?_⟩
      intro a ha b hb
      rw [List.mem_singleton.mp hb,hlast,(hold a ha).1]
      exact (hold a ha).2

theorem nodup_formulas_distinct (results : List Found) :
    ((distinct results).map Found.formula).Nodup := by
  refine List.pairwise_map.mpr ((pairwise_place results).imp ?_)
  intro a b hlt heq
  simp [place,heq] at hlt

theorem length_distinct (results : List Found) :
    (distinct results).length = (results.map Found.formula).toFinset.card := by
  have hsame : ((distinct results).map Found.formula).toFinset =
      (results.map Found.formula).toFinset := by
    ext x
    rw [List.mem_toFinset,List.mem_toFinset,formulas_distinct]
  rw [← hsame,List.toFinset_card_of_nodup (nodup_formulas_distinct results),List.length_map]

theorem distinct_of_nodup (h : (results.map Found.formula).Nodup) :
    distinct results = results := by
  induction results using List.reverseRecOn with
  | nil => rfl
  | append_singleton results r ih =>
    rw [List.map_append,List.nodup_append] at h
    obtain ⟨hnodup,-,hnew⟩ := h
    rw [distinct_concat_of_not_mem fun hmem => hnew _ hmem _ (by simp) rfl,ih hnodup]

end First

/-! ## Selection -/

section Selection
variable {p : Params} {results : List Found}

/-- All formulas in the order of the ranking. -/
def ordered (p : Params) (results : List Found) : List Found :=
  ((distinct results).mergeSort fitterFirst).mergeSort (rateFirst (50 ≤ p.target))

theorem rank_eq_take (p : Params) (results : List Found) :
    rank p results = (ordered p results).take p.maxCount := rfl

theorem ordered_perm (p : Params) (results : List Found) :
    (ordered p results).Perm (distinct results) :=
  (List.mergeSort_perm _ _).trans (List.mergeSort_perm _ _)

theorem mem_ordered {r : Found} : r ∈ ordered p results ↔ IsFirst results r :=
  (ordered_perm p results).mem_iff.trans mem_distinct

theorem isFirst_of_mem_rank {r : Found} (hr : r ∈ rank p results) : IsFirst results r :=
  mem_ordered.mp (List.mem_of_mem_take hr)

theorem nodup_formulas_rank (p : Params) (results : List Found) :
    ((rank p results).map Found.formula).Nodup := by
  rw [rank_eq_take,List.map_take]
  exact (List.take_sublist _ _).nodup
    (((ordered_perm p results).map Found.formula).nodup_iff.mpr (nodup_formulas_distinct results))

theorem length_rank (p : Params) (results : List Found) :
    (rank p results).length = min p.maxCount (results.map Found.formula).toFinset.card := by
  rw [rank_eq_take,List.length_take,(ordered_perm p results).length_eq,length_distinct]

/-- The ranking selects among the results, each formula once and no more than asked for. -/
theorem rank_spec (p : Params) (results : List Found) :
    (∀ r ∈ rank p results, r ∈ results) ∧ ((rank p results).map Found.formula).Nodup ∧
      (rank p results).length ≤ p.maxCount :=
  ⟨fun _ hr => (isFirst_of_mem_rank hr).mem,nodup_formulas_rank p results,List.length_take_le _ _⟩

end Selection
end DrawFormula.Search
