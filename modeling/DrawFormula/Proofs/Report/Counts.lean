import DrawFormula.Proofs.Backtest.Shared
import DrawFormula.Proofs.ResultType.Cycle
import DrawFormula.Report
import Mathlib.Algebra.BigOperators.Group.Finset.Basic

/-! # Counts of labels and of numbers

The newest predictions of many backtests are counted twice: label by label for each result type,
and number by number. Labels tell the values of a type apart, and a number has one value of each
type. So both counts are of the same predictions: a number is predicted as often as the labels of
its values.
-/
namespace DrawFormula

namespace ResultType
variable {t : ResultType} {v : ℤ}

/-- No two values of a result type have the same label. -/
theorem nodup_labels (t : ResultType) : (t.domain.map t.label).Nodup := by
  cases t <;> decide +kernel

theorem nodup_domain (t : ResultType) : t.domain.Nodup := t.nodup_labels.of_map

theorem label_inj {v' : ℤ} (hv : v ∈ t.domain) (hv' : v' ∈ t.domain) :
    t.label v = t.label v' ↔ v = v' :=
  ⟨fun h => List.inj_on_of_nodup_map t.nodup_labels hv hv' h,congrArg t.label⟩

end ResultType

namespace Backtest

/-- The predicted values of the newest period, none if there is no period. -/
def newest (b : Backtest) : List ℤ := (b.outcomes.getLast?.map PeriodOutcome.expanded).getD []

/-- Whether the newest predictions are values of the result type, each once, under their labels. -/
structure Labelled (b : Backtest) : Prop where
  nodup : b.newest.Nodup
  mem_domain : ∀ v ∈ b.newest, v ∈ b.line.formula.resultType.domain
  labels_eq : b.labels = b.newest.map b.line.formula.resultType.label

variable {b : Backtest}

theorem IsRun.labelled {history : List Draw} {target : Option ℤ} (h : IsRun history target b) :
    b.Labelled := by
  obtain ⟨os,hsum,hos⟩ := h.exists_outcomes
  have hnewest : b.newest = (os.head?.map PeriodOutcome.expanded).getD [] := by
    rw [newest,hsum]
    simp only [ofOutcomes,List.getLast?_reverse]
  have hpart : b.newest.Sublist b.line.formula.resultType.domain := by
    rw [hnewest]
    generalize List.map Prod.fst _ = draws at hos
    cases hos with
    | nil => exact List.nil_sublist _
    | cons hfirst _ =>
      obtain ⟨raw,rfl⟩ := hfirst
      exact List.filter_sublist
  refine ⟨hpart.nodup (ResultType.nodup_domain _),fun v hv => hpart.subset hv,?_⟩
  rw [hnewest]
  exact congrArg Backtest.labels hsum

section Newest
variable (h : b.Labelled)
include h

theorem Labelled.contains_label {v : ℤ} (hv : v ∈ b.line.formula.resultType.domain) :
    b.labels.contains (b.line.formula.resultType.label v) = decide (v ∈ b.newest) := by
  rw [Bool.eq_iff_iff,List.contains_iff_mem,decide_eq_true_eq,h.labels_eq,List.mem_map]
  constructor
  · rintro ⟨v',hv',hlabel⟩
    rwa [← (ResultType.label_inj (h.mem_domain v' hv') hv).mp hlabel]
  · intro hmem
    exact ⟨v,hmem,rfl⟩

/-- A backtest predicts a number once at most: if it predicts the number's value. -/
theorem Labelled.timesPredicted_eq {n : ℤ} (hn : Number.least ≤ n ∧ n ≤ Number.greatest)
    (year : Option ℤ) : Report.timesPredicted b year n =
      if b.line.formula.resultType.valueOf n year ∈ b.newest then 1 else 0 := by
  have hcount : Report.timesPredicted b year n =
      b.newest.count (b.line.formula.resultType.valueOf n year) := by
    unfold Report.timesPredicted newest
    cases b.outcomes.getLast? with
    | none => rfl
    | some o =>
      simp only [ResultType.contains_numbersFor hn]
      rfl
  rw [hcount,h.nodup.count]

end Newest

end Backtest

namespace Report
open Backtest
variable {bs : List Backtest}

/-! ## The result types of backtests -/

theorem foldl_types (bs : List Backtest) {seen : List ResultType} (h : seen.Nodup) :
    let ts := bs.foldl (fun seen b => if b.line.formula.resultType ∈ seen then seen
      else seen ++ [b.line.formula.resultType]) seen
    ts.Nodup ∧ ∀ t, t ∈ ts ↔ t ∈ seen ∨ ∃ b ∈ bs, b.line.formula.resultType = t := by
  induction bs generalizing seen with
  | nil => simpa using h
  | cons b rest ih =>
    intro ts
    simp only [ts,List.foldl_cons,List.exists_mem_cons_iff]
    split
    · next hold =>
      obtain ⟨hnodup,hmem⟩ := ih h
      refine ⟨hnodup,fun t => (hmem t).trans ?_⟩
      constructor
      · rintro (hseen | hrest)
        · exact .inl hseen
        · exact .inr (.inr hrest)
      · rintro (hseen | rfl | hrest)
        · exact .inl hseen
        · exact .inl hold
        · exact .inr hrest
    · next hnew =>
      obtain ⟨hnodup,hmem⟩ := ih (List.concat_eq_append ▸ h.concat hnew)
      refine ⟨hnodup,fun t => (hmem t).trans ?_⟩
      rw [List.mem_append,List.mem_singleton,or_assoc,eq_comm (a := t)]

/-- Each result type of the backtests is listed once. -/
theorem typesOf_spec (bs : List Backtest) : (typesOf bs).Nodup ∧
    ∀ t, t ∈ typesOf bs ↔ ∃ b ∈ bs, b.line.formula.resultType = t := by
  obtain ⟨hnodup,hmem⟩ := foldl_types bs List.nodup_nil
  refine ⟨hnodup,fun t => (hmem t).trans ?_⟩
  simp

theorem map_resultType_groups (bs : List Backtest) :
    (groups bs).map TypeGroup.resultType = typesOf bs := by
  rw [groups,List.map_map]
  exact List.map_id _

/-- Items are counted key by key. -/
theorem sum_countP_key {α κ : Type} [DecidableEq κ] (key : α → κ) (q : α → Bool) {ks : List κ}
    (hks : ks.Nodup) {xs : List α} (h : ∀ x ∈ xs, key x ∈ ks) :
    (ks.map fun k => xs.countP fun x => key x == k && q x).sum = xs.countP q := by
  let keys := (xs.filter q).map key
  have hcount : ∀ k, (xs.countP fun x => key x == k && q x) = keys.count k := by
    intro k
    rw [List.count,List.countP_map,List.countP_filter]
    rfl
  have hmem : ∀ k ∈ (keys : Multiset κ), k ∈ ks.toFinset := by
    intro k hk
    obtain ⟨x,hx,rfl⟩ := List.mem_map.mp (Multiset.mem_coe.mp hk)
    exact List.mem_toFinset.mpr (h x (List.mem_of_mem_filter hx))
  have hall := Multiset.sum_count_eq_card hmem
  simp only [Multiset.coe_count,Multiset.coe_card] at hall
  calc (ks.map fun k => xs.countP fun x => key x == k && q x).sum
      = (ks.map fun k => keys.count k).sum := by simp only [hcount]
    _ = ∑ k ∈ ks.toFinset, keys.count k := (List.sum_toFinset (keys.count ·) hks).symm
    _ = keys.length := hall
    _ = xs.countP q := by rw [List.length_map,List.countP_eq_length_filter]

/-! ## The two counts -/

theorem lookup_map {α κ β : Type} [BEq κ] [LawfulBEq κ] {f : α → κ} {g : α → β} {xs : List α}
    (hf : ∀ x ∈ xs, ∀ y ∈ xs, f x = f y → x = y) {x : α} (hx : x ∈ xs) :
    (xs.map fun x => (f x,g x)).lookup (f x) = some (g x) := by
  induction xs with
  | nil => cases hx
  | cons y ys ih =>
    rw [List.map_cons,List.lookup_cons]
    obtain ⟨hfirst,hrest⟩ := List.forall_mem_cons.mp hf
    rcases List.mem_cons.mp hx with rfl | hmem
    · rw [beq_self_eq_true]
    · cases hsame : f x == f y with
      | true =>
        rw [hfirst x hx (eq_of_beq hsame).symm]
      | false => exact ih (fun z hz => (List.forall_mem_cons.mp (hrest z hz)).2) hmem

theorem countP_labels (hbs : ∀ b ∈ bs, b.Labelled) {t : ResultType} {v : ℤ} (hv : v ∈ t.domain) :
    ((ofType t bs).countP fun b => b.labels.contains (t.label v)) =
      bs.countP fun b => b.line.formula.resultType = t ∧ v ∈ b.newest := by
  rw [ofType,List.countP_filter]
  refine List.countP_congr fun b hb => ?_
  simp only [Bool.and_eq_true,decide_eq_true_eq,and_comm (b := b.line.formula.resultType = t)]
  refine and_congr_right fun htype => ?_
  subst htype
  rw [(hbs b hb).contains_label hv,decide_eq_true_eq]

/-- The count of a label is the number of backtests of the type that predict its value. -/
theorem lookup_label (hbs : ∀ b ∈ bs, b.Labelled) {g : TypeGroup} (hg : g ∈ groups bs) {v : ℤ}
    (hv : v ∈ g.resultType.domain) : g.counts.lookup (g.resultType.label v) =
      some (bs.countP fun b => b.line.formula.resultType = g.resultType ∧ v ∈ b.newest) := by
  obtain ⟨t,-,rfl⟩ := List.mem_map.mp hg
  dsimp only at hv ⊢
  rw [lookup_map (fun v hv v' hv' => (ResultType.label_inj hv hv').mp) hv,countP_labels hbs hv]

theorem lookup_number {n : ℤ} (hn : Number.least ≤ n ∧ n ≤ Number.greatest)
    (hbs : ∀ b ∈ bs, b.Labelled) (year : Option ℤ) : (numberCounts bs year).lookup n =
      some (bs.countP fun b => b.line.formula.resultType.valueOf n year ∈ b.newest) := by
  have hsum : bs.foldr (fun b count => timesPredicted b year n + count) 0 =
      bs.countP fun b => b.line.formula.resultType.valueOf n year ∈ b.newest := by
    induction bs with
    | nil => rfl
    | cons b rest ih =>
      obtain ⟨hb,hrest⟩ := List.forall_mem_cons.mp hbs
      rw [List.foldr_cons,List.countP_cons,ih hrest,hb.timesPredicted_eq hn,Nat.add_comm]
      simp only [decide_eq_true_eq]
  have hlookup := lookup_map (f := fun n : ℤ => n)
    (g := fun n => bs.foldr (fun b count => timesPredicted b year n + count) 0)
    (fun _ _ _ _ h => h) (Number.mem_all.mpr hn)
  rw [numberCounts]
  exact hlookup.trans (congrArg some hsum)

/-- The count of a number is the sum over the result types of the backtests that predict its
value. -/
theorem sum_types (n : ℤ) (year : Option ℤ) :
    ((groups bs).map fun g => bs.countP fun b => b.line.formula.resultType = g.resultType ∧
      g.resultType.valueOf n year ∈ b.newest).sum =
    bs.countP fun b => b.line.formula.resultType.valueOf n year ∈ b.newest := by
  obtain ⟨hnodup,hmem⟩ := typesOf_spec bs
  have htypes : ∀ b ∈ bs, b.line.formula.resultType ∈ typesOf bs :=
    fun b hb => (hmem _).mpr ⟨b,hb,rfl⟩
  have hsum := sum_countP_key (fun b : Backtest => b.line.formula.resultType)
    (fun b => b.line.formula.resultType.valueOf n year ∈ b.newest) hnodup htypes
  rw [← hsum,← map_resultType_groups,List.map_map]
  refine congrArg List.sum (List.map_congr_left fun g _ => List.countP_congr fun b _ => ?_)
  simp only [decide_eq_true_eq,Bool.and_eq_true,beq_iff_eq]
  exact and_congr_right fun htype => by rw [htype]

/-- The two counts of backtests tell the same. Each result type of the backtests has one group, and
in it the label of a value counts the backtests of the type that predict the value. In any zodiac
year a number counts as much as the labels of its values do together, and at most once for each
backtest. -/
theorem numberCounts_eq_sum (hbs : ∀ b ∈ bs, ∃ history target, IsRun history target b)
    (year : Option ℤ) :
    ((groups bs).map TypeGroup.resultType).Nodup ∧
    (∀ t, t ∈ (groups bs).map TypeGroup.resultType ↔ ∃ b ∈ bs, b.line.formula.resultType = t) ∧
    (∀ g ∈ groups bs, ∀ v ∈ g.resultType.domain, g.counts.lookup (g.resultType.label v) =
      some (bs.countP fun b => b.line.formula.resultType = g.resultType ∧ v ∈ b.newest)) ∧
    ∀ n, Number.least ≤ n ∧ n ≤ Number.greatest →
      (∃ count : TypeGroup → ℕ,
        (∀ g ∈ groups bs, g.counts.lookup (g.resultType.label (g.resultType.valueOf n year)) =
          some (count g)) ∧
        (numberCounts bs year).lookup n = some ((groups bs).map count).sum) ∧
      ∀ b ∈ bs, timesPredicted b year n ≤ 1 := by
  have hlabelled : ∀ b ∈ bs, b.Labelled := by
    intro b hb
    obtain ⟨history,target,hrun⟩ := hbs b hb
    exact hrun.labelled
  obtain ⟨hnodup,hmem⟩ := typesOf_spec bs
  rw [map_resultType_groups]
  refine ⟨hnodup,hmem,fun g hg v hv => lookup_label hlabelled hg hv,fun n hn => ⟨?_,?_⟩⟩
  · refine ⟨_,fun g hg => lookup_label hlabelled hg (g.resultType.valueOf_mem_domain hn year),?_⟩
    rw [sum_types,lookup_number hn hlabelled year]
  · intro b hb
    rw [(hlabelled b hb).timesPredicted_eq hn]
    split <;> decide

theorem numberCounts_twoTypes :
    let history := [lowDraw 2 9 (by decide),lowDraw 1 7 (by decide)]
    let sizes : Formula := ⟨.drawn,.sizeParity,['特','号'],0,1,1,0⟩
    let lines := [repeatedTail 2,⟨sizes,sizes.text,1⟩]
    ∃ bs, (runAll history .none none lines (Memo.empty 0)).1 = .ok bs ∧
      (∀ b ∈ bs, ∃ history target, IsRun history target b) ∧
      (Number.least ≤ 9 ∧ 9 ≤ Number.greatest) ∧
      ((groups bs).map fun g => g.counts.lookup (g.resultType.label
        (g.resultType.valueOf 9 (some 0)))) = [some 1,some 1] ∧
      (numberCounts bs (some 0)).lookup 9 = some 2 := by
  intro history sizes lines
  have hlabels : (runAll history .none none lines (Memo.empty 0)).1.map (fun bs =>
      (groups bs).map fun g => g.counts.lookup (g.resultType.label
        (g.resultType.valueOf 9 (some 0)))) = .ok [some 1,some 1] := by
    decide +kernel
  cases hrun : (runAll history .none none lines (Memo.empty 0)).1 with
  | error e =>
    rw [hrun] at hlabels
    cases hlabels
  | ok bs =>
    rw [hrun] at hlabels
    have hcounts := Except.ok.inj hlabels
    have hbs : ∀ b ∈ bs, ∃ history target, IsRun history target b :=
      fun b hb => ⟨history,none,isRun_of_mem_runAll hrun b hb⟩
    have hnine : Number.least ≤ 9 ∧ 9 ≤ Number.greatest := by decide
    obtain ⟨-,-,-,hnumbers⟩ := numberCounts_eq_sum hbs (some 0)
    obtain ⟨⟨count,hcount,hsum⟩,-⟩ := hnumbers 9 hnine
    have htwo : (groups bs).map count = [1,1] := by
      have hsome : ((groups bs).map count).map some = [1,1].map some := by
        rw [List.map_map]
        exact (List.map_congr_left fun g hg => (hcount g hg).symm).trans hcounts
      exact List.map_injective_iff.mpr (Option.some_injective ℕ) hsome
    refine ⟨bs,rfl,hbs,hnine,hcounts,?_⟩
    rw [hsum,htwo]
    rfl

end Report

end DrawFormula
