import DrawFormula.Report
import Mathlib.Data.Int.Notation
import Mathlib.Data.List.Induction
import Mathlib.Data.Nat.Notation
import Mathlib.Order.Bounds.Defs

/-! # Streaks of misses

The longest streak is counted along the periods, the trailing one back from the newest period. Both
follow one rule when a period is added, and from that rule they are the greatest numbers of misses
that stand together somewhere, or at the end.
-/
namespace DrawFormula.Backtest
variable {n : ℕ} {hits : List Bool}

/-! ## One more period -/

theorem trailingMisses_append_hit (hits later : List Bool) :
    trailingMisses (hits ++ true :: later) = trailingMisses later := by
  simp only [trailingMisses,List.reverse_append,List.reverse_cons,List.append_assoc,
    List.takeWhile_append]
  split
  · next hall => simp [hall]
  · rfl

@[simp] theorem trailingMisses_hit (hits : List Bool) : trailingMisses (hits ++ [true]) = 0 :=
  trailingMisses_append_hit hits []

@[simp] theorem trailingMisses_miss (hits : List Bool) :
    trailingMisses (hits ++ [false]) = trailingMisses hits + 1 := by
  simp [trailingMisses]

theorem trailingMisses_replicate (n : ℕ) : trailingMisses (List.replicate n false) = n := by
  simp [trailingMisses]

theorem longestMissesFrom_hit (best current : ℕ) (hits : List Bool) :
    longestMissesFrom best current (hits ++ [true]) = longestMissesFrom best current hits := by
  induction hits generalizing best current with
  | nil => rfl
  | cons hit rest ih =>
    cases hit with
    | true => exact ih best 0
    | false => exact ih _ _

/-- The current streak goes on with the misses at the beginning of the list. -/
theorem longestMissesFrom_miss (best current : ℕ) (hits : List Bool) :
    longestMissesFrom best current (hits ++ [false]) =
      max (longestMissesFrom best current hits)
        (trailingMisses (List.replicate current false ++ hits) + 1) := by
  induction hits generalizing best current with
  | nil =>
    rw [List.append_nil,trailingMisses_replicate]
    rfl
  | cons hit rest ih =>
    cases hit with
    | true =>
      rw [trailingMisses_append_hit]
      exact ih best 0
    | false =>
      have hstreak : List.replicate current false ++ false :: rest =
          List.replicate (current + 1) false ++ rest := by
        rw [List.replicate_succ',List.append_assoc,List.singleton_append]
      rw [hstreak]
      exact ih _ _

@[simp] theorem longestMisses_hit (hits : List Bool) :
    longestMisses (hits ++ [true]) = longestMisses hits := longestMissesFrom_hit 0 0 hits

@[simp] theorem longestMisses_miss (hits : List Bool) : longestMisses (hits ++ [false]) =
    max (longestMisses hits) (trailingMisses hits + 1) := longestMissesFrom_miss 0 0 hits

/-! ## Misses that stand together -/

/-- So many misses stand at the end just if the trailing streak is as long. -/
theorem replicate_suffix_iff : List.replicate n false <:+ hits ↔ n ≤ trailingMisses hits := by
  induction hits using List.reverseRecOn generalizing n with
  | nil => simp [trailingMisses]
  | append_singleton hits hit ih =>
    cases n with
    | zero => simp
    | succ n =>
      rw [List.replicate_succ',List.suffix_concat_iff]
      cases hit with
      | true => simp
      | false => simp [ih]

/-- So many misses stand together somewhere just if the longest streak is as long. -/
theorem replicate_infix_iff : List.replicate n false <:+: hits ↔ n ≤ longestMisses hits := by
  induction hits using List.reverseRecOn with
  | nil => simp [longestMisses,longestMissesFrom]
  | append_singleton hits hit ih =>
    -- they stand at the new end, or they stood together before
    rw [List.infix_concat_iff,replicate_suffix_iff,ih]
    cases hit with
    | true =>
      rw [trailingMisses_hit,longestMisses_hit]
      omega
    | false =>
      rw [trailingMisses_miss,longestMisses_miss]
      omega

theorem isGreatest_trailingMisses (hits : List Bool) :
    IsGreatest {n | List.replicate n false <:+ hits} (trailingMisses hits) :=
  ⟨replicate_suffix_iff.mpr (Nat.le_refl _),fun _ h => replicate_suffix_iff.mp h⟩

theorem isGreatest_longestMisses (hits : List Bool) :
    IsGreatest {n | List.replicate n false <:+: hits} (longestMisses hits) :=
  ⟨replicate_infix_iff.mpr (Nat.le_refl _),fun _ h => replicate_infix_iff.mp h⟩

theorem trailingMisses_le_longestMisses (hits : List Bool) :
    trailingMisses hits ≤ longestMisses hits :=
  replicate_infix_iff.mp (isGreatest_trailingMisses hits).1.isInfix

theorem longestMisses_le_count (hits : List Bool) : longestMisses hits ≤ hits.count false := by
  have hcount := (isGreatest_longestMisses hits).1.sublist.count_le false
  rwa [List.count_replicate_self] at hcount

theorem lastHit_iff (hits : List Bool) :
    lastHit hits = true ↔ hits ≠ [] ∧ trailingMisses hits = 0 := by
  induction hits using List.reverseRecOn with
  | nil => simp [lastHit]
  | append_singleton hits hit _ => cases hit <;> simp [lastHit]

/-! ## Filters -/

/-- A trailing streak of at least `a` misses is a streak of at most `b`. -/
theorem le_of_hitsHold {f : Report.Filter} {a b : ℤ} (ha : f.minTrailingMisses = some a)
    (hb : f.maxMissStreak = some b) (h : f.hitsHold hits = true) : a ≤ b := by
  have hle := trailingMisses_le_longestMisses hits
  simp only [Report.Filter.hitsHold,ha,hb,Option.all_some,Bool.and_eq_true,decide_eq_true_eq,
    Int.ofNat_eq_natCast] at h
  omega

/-- The two streaks of misses are the longest one and the longest one at the end; a further period
changes them by one rule, and a filter that bounds both is passed only if its bounds agree. -/
theorem streaks_extremal (hits : List Bool) :
    IsGreatest {n | List.replicate n false <:+: hits} (longestMisses hits) ∧
    IsGreatest {n | List.replicate n false <:+ hits} (trailingMisses hits) ∧
    trailingMisses hits ≤ longestMisses hits ∧ longestMisses hits ≤ hits.count false ∧
    (lastHit hits = true ↔ hits ≠ [] ∧ trailingMisses hits = 0) ∧
    (trailingMisses (hits ++ [true]) = 0 ∧
      longestMisses (hits ++ [true]) = longestMisses hits) ∧
    (trailingMisses (hits ++ [false]) = trailingMisses hits + 1 ∧
      longestMisses (hits ++ [false]) = max (longestMisses hits) (trailingMisses hits + 1)) ∧
    ∀ (f : Report.Filter) (a b : ℤ), f.minTrailingMisses = some a → f.maxMissStreak = some b →
      (∃ tested : Backtest, f.passes tested = true) → a ≤ b := by
  refine ⟨isGreatest_longestMisses hits,isGreatest_trailingMisses hits,
    trailingMisses_le_longestMisses hits,longestMisses_le_count hits,lastHit_iff hits,
    ⟨trailingMisses_hit hits,longestMisses_hit hits⟩,
    ⟨trailingMisses_miss hits,longestMisses_miss hits⟩,?_⟩
  rintro f a b ha hb ⟨tested,hpasses⟩
  exact le_of_hitsHold ha hb (Bool.and_eq_true_iff.mp hpasses).2

/-- The outcomes of six periods, newest first: two misses, a hit, and three misses before it. -/
def sixOutcomes : List PeriodOutcome :=
  [⟨6,1,[1],2,false⟩,⟨5,1,[1],3,false⟩,⟨4,1,[1],1,true⟩,⟨3,1,[1],4,false⟩,⟨2,1,[1],5,false⟩,
    ⟨1,1,[1],6,false⟩]

/-- Two trailing misses and a longest streak of three pass a filter that asks for just these. -/
theorem streaks_extremal_sixOutcomes :
    let tested := ofOutcomes ⟨⟨.drawn,.tail,['特','尾'],0,6,0,0⟩,[],0⟩ none sixOutcomes
    let filter := { Report.Filter.any with minTrailingMisses := some 2, maxMissStreak := some 3 }
    trailingMisses tested.hits = 2 ∧ longestMisses tested.hits = 3 ∧
      filter.passes tested = true ∧ (2 : ℤ) ≤ 3 := by
  intro tested filter
  have hpasses : filter.passes tested = true := rfl
  obtain ⟨-,-,-,-,-,-,-,hbounds⟩ := streaks_extremal tested.hits
  exact ⟨rfl,rfl,hpasses,hbounds filter 2 3 rfl rfl ⟨tested,hpasses⟩⟩

end DrawFormula.Backtest
