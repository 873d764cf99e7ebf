import DrawFormula.Proofs.Backtest.Nesting
import DrawFormula.Proofs.Backtest.Shared
import DrawFormula.Proofs.Formula.Rereading
import DrawFormula.Proofs.ResultType.Cycle
import DrawFormula.Report

/-! # Coverage of recent draws

A report looks up the outcome of a period by its number and asks which numbers have a predicted
value. A backtest compares values in the order of its window. Both ways a special number is met or
missed alike, whatever the memo of the backtests held: a prediction may come from anywhere, but it
is set against the draw of its own period. So the coverage of a draw is the number of hit flags at
its place.
-/
namespace DrawFormula

namespace Backtest
variable {f : Formula} {history : List Draw} {target : Option ℤ}

/-- A formula that is read has a window of at least one period. -/
theorem periods_pos_of_readLine {text : Text} {i : ℤ} {line : FormulaLine}
    (h : Formula.readLine text i = .ok line) : 0 < line.formula.periods := by
  unfold Formula.readLine at h
  cases hread : Formula.read text with
  | error e =>
    rw [hread] at h
    cases h
  | ok f =>
    rw [hread] at h
    cases h
    exact (Formula.ofCompact_eq_ok hread).1.periods_pos

theorem periods_apply_pos (overrides : Overrides) (h : 0 < f.periods) :
    0 < (overrides.apply f).periods := by
  unfold Overrides.apply
  dsimp only
  split
  · split
    · next hn => exact Int.pos_iff_toNat_pos.mp hn
    · exact h
  · exact h

theorem periods_pos_of_runAll {overrides : Overrides} {lines : List FormulaLine}
    {cache : Element.Cache} {bs : List Backtest}
    (h : (runAll history overrides target lines cache).1 = .ok bs)
    (hlines : ∀ line ∈ lines, 0 < line.formula.periods) : ∀ b ∈ bs, 0 < b.line.formula.periods := by
  intro b hb
  have hmem : b.line ∈ lines.map overrides.applyLine :=
    lines_of_runAll h ▸ List.mem_map_of_mem hb
  obtain ⟨line,hline,hsame⟩ := List.mem_map.mp hmem
  rw [← hsame]
  exact periods_apply_pos overrides (hlines line hline)

/-! ## Outcomes by their periods -/

/-- Where the first keys of a list without repetition are those of some items, an item is found by
its key at the place of the key. -/
theorem find?_key {β κ : Type} [DecidableEq κ] {key : β → κ} {os : List β} {keys : List κ} {n k : ℕ}
    {a : κ} (hos : os.map key = keys.take n) (hkeys : keys.Nodup) (ha : keys[k]? = some a) :
    (os.find? fun o => key o = a) = os[k]? := by
  have hlt : k < keys.length := (List.getElem?_eq_some_iff.mp ha).1
  have hkey : ∀ (i : ℕ) (o : β), os[i]? = some o → keys[i]? = some (key o) := by
    intro i o ho
    have htaken : (keys.take n)[i]? = some (key o) := by
      rw [← hos,List.getElem?_map,ho]
      rfl
    rw [List.getElem?_take] at htaken
    exact (ite_eq_iff.mp htaken).elim And.right fun h => nomatch h.2
  have hplace : ∀ o ∈ os, key o = a → os[k]? = some o := by
    intro o ho hoa
    obtain ⟨i,hi⟩ := List.mem_iff_getElem?.mp ho
    have hsame : keys[k]? = keys[i]? := by rw [hkey i o hi,hoa,ha]
    rwa [(List.getElem?_inj hlt hkeys).mp hsame]
  cases hfind : os.find? fun o => key o = a with
  | some o =>
    have hfound : key o = a := by simpa using List.find?_some hfind
    exact (hplace o (List.mem_of_find?_eq_some hfind) hfound).symm
  | none =>
    symm
    by_contra hsome
    obtain ⟨o,ho⟩ := Option.ne_none_iff_exists'.mp hsome
    have hne := List.find?_eq_none.mp hfind o (List.mem_of_getElem? ho)
    have hsame : some (key o) = some a := (hkey k o ho).symm.trans ha
    exact hne (decide_eq_true (Option.some.inj hsame))

theorem findIdx?_period (h : (history.map Draw.period).Nodup) {s : ℕ} (hs : s < history.length) :
    (history.findIdx? fun d => d.period = history[s].period) = some s := by
  rw [List.findIdx?_eq_some_iff_getElem]
  refine ⟨hs,by simp,fun k hk => ?_⟩
  have hne := List.pairwise_iff_getElem.mp (List.pairwise_map.mp h) k s (hk.trans hs) hs hk
  simpa using hne

section Window
variable {b : Backtest} (hb : IsRun history target b) (h : (history.map Draw.period).Nodup) {s : ℕ}
  (hs : BeginsAt history target s)
include hb h hs

theorem IsRun.total_eq : b.total = min b.line.formula.periods (history.length - s) := by
  obtain ⟨os,hsum,hos⟩ := hb.exists_outcomes
  have hlength := hos.length_eq
  rw [hs.map_fst_window h,List.length_take,List.length_drop] at hlength
  rw [hlength,hsum]
  exact List.length_reverse

theorem IsRun.start_eq :
    (b.target.bind fun p => history.findIdx? fun d => d.period = p).getD 0 = s := by
  obtain ⟨os,hsum,-⟩ := hb.exists_outcomes
  have htarget := congrArg Backtest.target hsum
  simp only [ofOutcomes] at htarget
  rw [htarget]
  cases hs with
  | named hs =>
    rw [Option.bind_some,lastPosition?_of_nodup h hs,Option.isSome_some,if_pos rfl,Option.bind_some,
      findIdx?_period h hs]
    rfl
  | unnamed => rfl
  | absent habsent =>
    rw [Option.bind_some,lastPosition?_eq_none habsent]
    rfl

/-- A report finds the special number of a draw covered just if the flag at its place is a hit. -/
theorem IsRun.covers_eq {k : ℕ} (hk : s + k < history.length) :
    Report.covers b history[s + k] = decide (b.hits.reverse[k]? = some true) := by
  obtain ⟨os,hsum,hos⟩ := hb.exists_outcomes
  rw [hs.map_fst_window h] at hos
  have hperiods : os.map PeriodOutcome.period =
      ((history.drop s).map Draw.period).take b.line.formula.periods := by
    rw [map_period_of_forall₂ hos,List.map_take]
  have hdraw : (history.drop s)[k]? = some history[s + k] := by
    rw [List.getElem?_drop,List.getElem?_eq_getElem hk]
  have hkeys : ((history.drop s).map Draw.period).Nodup := by
    rw [List.map_drop]
    exact h.sublist (List.drop_sublist s _)
  have hfind := find?_key hperiods hkeys (by rw [List.getElem?_map,hdraw,Option.map_some])
  have hflag : b.hits.reverse[k]? = os[k]?.map PeriodOutcome.hit := by
    rw [hsum]
    simp [ofOutcomes]
  have houtcomes : b.outcomes.reverse = os := by
    rw [hsum]
    exact List.reverse_reverse os
  rw [hflag,Report.covers,houtcomes,hfind]
  cases ho : os[k]? with
  | none => rfl
  | some o =>
    obtain ⟨hlt,rfl⟩ := List.getElem?_eq_some_iff.mp ho
    have houtcome : IsOutcome b.line.formula history[s + k] os[k] := by
      simpa using hos.get (hos.length_eq ▸ hlt) hlt
    dsimp only
    rw [ResultType.any_contains_numbersFor history[s + k].special_bounds,← houtcome.hit_eq]
    simp

end Window

end Backtest

namespace Report
open Backtest

/-- The coverage of the recent draws agrees with the hit flags of the backtests that one request
gives: there is an entry for each period of the first window, up to ten, and each entry is the
number of backtests with a hit at its place. Every formula that can be read has a window of at
least one period; where the first window has none, up to ten draws are shown instead. -/
theorem coverage_eq_hits {history : List Draw} (h : (history.map Draw.period).Nodup)
    {overrides : Overrides} {target : Option ℤ} {lines : List FormulaLine} {cache : Element.Cache}
    {first : Backtest} {rest : List Backtest}
    (hrun : (runAll history overrides target lines cache).1 = .ok (first :: rest)) :
    let bs := first :: rest
    ((∀ line ∈ lines, 0 < line.formula.periods) →
      (coverage bs history).length = min first.total recentPeriods) ∧
    ∀ j < (coverage bs history).length, (coverage bs history).reverse[j]? =
      some (bs.countP fun b => b.hits.reverse[j]? = some true) := by
  intro bs
  let span := if first.total = 0 then recentPeriods else min first.total recentPeriods
  have hbs := isRun_of_mem_runAll hrun
  have hfirst := hbs first List.mem_cons_self
  obtain ⟨s,hs⟩ := exists_beginsAt history target
  have hlist : coverage bs history =
      (((history.drop s).take span).map fun d => bs.countP fun b => covers b d).reverse := by
    rw [coverage,hfirst.start_eq h hs]
  have hlength : (coverage bs history).length = min span (history.length - s) := by
    rw [hlist,List.length_reverse,List.length_map,List.length_take,List.length_drop]
  refine ⟨fun hlines => ?_,fun j hj => ?_⟩
  · have htotal := hfirst.total_eq h hs
    have hperiods := periods_pos_of_runAll hrun hlines first List.mem_cons_self
    rw [hlength]
    simp only [span]
    split <;> omega
  · have hplace : s + j < history.length := by omega
    have hinside : j < span := by omega
    have hcount : bs.countP (fun b => covers b history[s + j]) =
        bs.countP fun b => b.hits.reverse[j]? = some true := by
      refine List.countP_congr fun b hb => ?_
      rw [(hbs b hb).covers_eq h hs hplace]
    rw [hlist,List.reverse_reverse,List.getElem?_map,List.getElem?_take,if_pos hinside,
      List.getElem?_drop,List.getElem?_eq_getElem hplace,Option.map_some,hcount]

/-- The second window holds only the newer one of two draws. -/
theorem coverage_twoWindows :
    let history := [lowDraw 3 9 (by decide),lowDraw 2 8 (by decide),lowDraw 1 7 (by decide)]
    let sizes : Formula := ⟨.drawn,.sizeParity,['特','号'],0,1,0,3⟩
    let lines := [repeatedTail 15,⟨sizes,sizes.text,1⟩]
    (history.map Draw.period).Nodup ∧ (∀ line ∈ lines, 0 < line.formula.periods) ∧
    ∃ first rest, (runAll history .none (some 2) lines (Memo.empty 0)).1 = .ok (first :: rest) ∧
      (coverage (first :: rest) history).length = 2 ∧
      (coverage (first :: rest) history).reverse[0]? = some 1 := by
  intro history sizes lines
  have hperiods : (history.map Draw.period).Nodup := by decide
  have hlines : ∀ line ∈ lines, 0 < line.formula.periods := by decide
  have htold : (runAll history .none (some 2) lines (Memo.empty 0)).1.map
      (List.map fun b => (b.total,b.hits)) = .ok [(2,[true,false]),(1,[true])] := by
    decide +kernel
  cases hrun : (runAll history .none (some 2) lines (Memo.empty 0)).1 with
  | error e =>
    rw [hrun] at htold
    cases htold
  | ok bs =>
    rw [hrun] at htold
    have hbs := Except.ok.inj htold
    obtain ⟨first,rest,rfl,hfirst,-⟩ := List.map_eq_cons_iff.mp hbs
    obtain ⟨hlength,hentries⟩ := coverage_eq_hits hperiods hrun
    have htotal : first.total = 2 := congrArg Prod.fst hfirst
    have hspan : (coverage (first :: rest) history).length = 2 := by
      rw [hlength hlines,htotal]
      rfl
    have hcount : ((first :: rest).countP fun b => b.hits.reverse[0]? = some true) = 1 := by
      have hpairs := congrArg (List.countP fun x => x.2.reverse[0]? = some true) hbs
      rwa [List.countP_map] at hpairs
    refine ⟨hperiods,hlines,first,rest,rfl,hspan,?_⟩
    rw [hentries 0 (by omega),hcount]

end Report

end DrawFormula
