import DrawFormula.Proofs.Backtest.Outcomes
import Mathlib.Data.List.DropRight

/-! # Windows of different lengths

A window begins at a place of the history and goes back in time from there. A shorter window is the
newest part of a longer one, and no outcome depends on the length of its window. So a backtest over
fewer periods tells the newest part of what one over more periods tells, and it fails only where
that one fails too.
-/
namespace DrawFormula

/-- The overrides with windows of so many periods. -/
def Overrides.withPeriods (o : Overrides) (n : ℕ) : Overrides := { o with periods := some n }

theorem Overrides.periods_withPeriods (o : Overrides) {n : ℕ} (h : 1 ≤ n) (f : Formula) :
    ((o.withPeriods n).apply f).periods = n := by
  have hpos : (0 : ℤ) < n := Int.natCast_pos.mpr h
  simp only [withPeriods,apply]
  rw [if_pos hpos,Int.toNat_natCast]

namespace Backtest

/-- Whether the windows of a target begin at a place: the place of the target's period, or that of
the newest draw if no period is named or the history has no draw of it. -/
inductive BeginsAt (history : List Draw) : Option ℤ → ℕ → Prop where
  | named {s : ℕ} (hs : s < history.length) : BeginsAt history (some history[s].period) s
  | unnamed : BeginsAt history none 0
  | absent {period : ℤ} (h : ∀ d ∈ history, d.period ≠ period) : BeginsAt history (some period) 0

theorem exists_beginsAt (history : List Draw) (target : Option ℤ) :
    ∃ s, BeginsAt history target s := by
  cases target with
  | none => exact ⟨0,.unnamed⟩
  | some period =>
    by_cases hfound : ∃ d ∈ history, d.period = period
    · obtain ⟨d,hd,rfl⟩ := hfound
      obtain ⟨s,hs,rfl⟩ := List.getElem_of_mem hd
      exact ⟨s,.named hs⟩
    · exact ⟨0,.absent fun d hd hperiod => hfound ⟨d,hd,hperiod⟩⟩

theorem BeginsAt.lt_length {history : List Draw} {target : Option ℤ} {s : ℕ}
    (h : BeginsAt history target s) (hne : history ≠ []) : s < history.length := by
  cases h with
  | named hs => exact hs
  | unnamed => exact List.length_pos_iff.mpr hne
  | absent => exact List.length_pos_iff.mpr hne

theorem lastPosition?_eq_none {history : List Draw} {period : ℤ}
    (h : ∀ d ∈ history, d.period ≠ period) : lastPosition? history period = none := by
  rw [lastPosition?,Option.map_eq_none_iff,List.findIdx?_eq_none_iff]
  intro d hd
  exact decide_eq_false (h d (List.mem_reverse.mp hd))

/-- A target that the history does not have is as good as none. -/
theorem run_of_absent {history : List Draw} {target : Option ℤ}
    (h : ∀ period ∈ target, ∀ d ∈ history, d.period ≠ period) (line : FormulaLine)
    (cache : Element.Cache) : run line history target cache = run line history none cache := by
  cases target with
  | none => rfl
  | some period =>
    have hplace := lastPosition?_eq_none (h period rfl)
    simp only [run,Option.bind_some,Option.bind_none,hplace]
    rfl

/-! ## Parts of windows -/

theorem take_pairs (ownSource : Bool) {p q : ℕ} (hpq : p ≤ q) (history : List Draw) :
    (pairs ownSource q history).take p = pairs ownSource p history := by
  apply List.ext_getElem?
  intro k
  rw [List.getElem?_take,getElem?_pairs,getElem?_pairs]
  by_cases hk : k < p
  · rw [if_pos hk,if_pos hk,if_pos (hk.trans_le hpq)]
  · rw [if_neg hk,if_neg hk]

theorem map_fst_pairs (ownSource : Bool) (n : ℕ) (history : List Draw) :
    (pairs ownSource n history).map Prod.fst = history.take n := by
  induction n generalizing ownSource history with
  | zero => simp [pairs]
  | succ n ih =>
    cases history with
    | nil => simp [pairs]
    | cons d rest => simp [pairs,ih]

/-- A shorter window is the newest part of a longer one. -/
theorem take_window (o : Overrides) (f : Formula) {p q : ℕ} (hp : 1 ≤ p) (hpq : p ≤ q)
    (history : List Draw) (start : Option ℕ) :
    (window ((o.withPeriods q).apply f) history start).take p =
      window ((o.withPeriods p).apply f) history start := by
  have hperiods := o.periods_withPeriods hp f
  have hperiods' := o.periods_withPeriods (hp.trans hpq) f
  cases start with
  | none => rw [window,window,hperiods,hperiods',take_pairs _ hpq]
  | some s => rw [window,window,hperiods,hperiods',take_pairs _ hpq]

/-- The draws of a window are those from its place on. -/
theorem BeginsAt.map_fst_window {history : List Draw} (h : (history.map Draw.period).Nodup)
    {target : Option ℤ} {s : ℕ} (hs : BeginsAt history target s) (f : Formula) :
    (window f history (target.bind (lastPosition? history))).map Prod.fst =
      (history.drop s).take f.periods := by
  cases hs with
  | named hs =>
    rw [Option.bind_some,lastPosition?_of_nodup h hs]
    exact map_fst_pairs false f.periods _
  | unnamed => exact map_fst_pairs true f.periods history
  | absent habsent =>
    rw [Option.bind_some,lastPosition?_eq_none habsent]
    exact map_fst_pairs true f.periods history

/-! ## Parts of attempts -/

section Attempts
variable {α β ε : Type} {f : α → Except ε β} {xs : List α}

theorem mapM_take {ys : List β} (h : xs.mapM f = .ok ys) (n : ℕ) :
    (xs.take n).mapM f = .ok (ys.take n) := by
  rw [mapM_eq_ok_iff] at h ⊢
  rw [List.map_take,h,List.map_take]

theorem mapM_of_take_error {n : ℕ} {e : ε} (h : (xs.take n).mapM f = .error e) :
    xs.mapM f = .error e := by
  rw [← List.take_append_drop n xs,List.mapM_append,h]
  rfl

end Attempts

/-! ## What a backtest tells of its window -/

section Shortened
variable {line line' : FormulaLine} {target : Option ℤ} {w : List (Draw × Draw)} {n : ℕ}
variable (hf : outcomeFrom line.formula = outcomeFrom line'.formula)
include hf

theorem ofWindow_take {b' : Backtest} (h : ofWindow line' target w = .ok b') :
    ∃ b, ofWindow line target (w.take n) = .ok b ∧ b.outcomes = b'.outcomes.rtake n := by
  obtain ⟨os,hos,rfl⟩ := exists_outcomes_of_window h
  have htaken := mapM_take (mapM_eq_ok_iff.mpr hos) n
  refine ⟨ofOutcomes line target (os.take n),?_,?_⟩
  · rw [ofWindow,hf,htaken]
    rfl
  · change (os.take n).reverse = os.reverse.rtake n
    rw [List.rtake_eq_reverse_take_reverse,List.reverse_reverse]

theorem ofWindow_of_take_error {e : NumeralError}
    (h : ofWindow line target (w.take n) = .error e) : ofWindow line' target w = .error e := by
  unfold ofWindow at h ⊢
  rw [hf] at h
  cases hm : (w.take n).mapM (outcomeFrom line'.formula) with
  | ok os =>
    rw [hm] at h
    cases h
  | error e' =>
    rw [hm] at h
    rw [mapM_of_take_error hm]
    exact h

end Shortened

section Told
variable {line : FormulaLine} {target : Option ℤ} {w : List (Draw × Draw)} {b : Backtest}
variable (h : ofWindow line target w = .ok b)
include h

theorem map_period_of_window : b.outcomes.map PeriodOutcome.period =
    ((w.map Prod.fst).map Draw.period).reverse := by
  obtain ⟨os,hos,rfl⟩ := exists_outcomes_of_window h
  have hperiods : os.map PeriodOutcome.period = (w.map Prod.fst).map Draw.period := by
    apply List.ext_getElem?
    intro k
    have hplace := periodAt?_of_window h k
    simp only [outcomeAt?,ofOutcomes,List.reverse_reverse] at hplace
    simpa [Function.comp_def] using hplace
  change os.reverse.map PeriodOutcome.period = _
  rw [List.map_reverse,hperiods]

theorem hits_of_window : b.hits = b.outcomes.map PeriodOutcome.hit ∧
    b.hitCount = b.hits.count true := by
  obtain ⟨os,-,rfl⟩ := exists_outcomes_of_window h
  exact ⟨rfl,rfl⟩

/-- A backtest over some draws tells of them, oldest first, and labels what is predicted for the
newest one. -/
theorem told_of_window {draws : List Draw} (hw : w.map Prod.fst = draws) (hne : draws ≠ []) :
    b.outcomes.map PeriodOutcome.period = (draws.map Draw.period).reverse ∧
      b.total = draws.length ∧ ∃ o, b.outcomes.getLast? = some o ∧
        draws.head?.map Draw.period = some o.period ∧
        b.labels = o.expanded.map line.formula.resultType.label := by
  have hperiods := map_period_of_window h
  have htotal := total_of_window h
  rw [hw] at hperiods
  rw [← List.length_map Prod.fst,hw] at htotal
  refine ⟨hperiods,htotal,?_⟩
  obtain ⟨os,-,rfl⟩ := exists_outcomes_of_window h
  cases os with
  | nil => exact absurd (List.length_eq_zero_iff.mp htotal.symm) hne
  | cons o rest =>
    have hlast : (o :: rest).reverse.getLast? = some o := List.getLast?_reverse
    refine ⟨o,hlast,?_,rfl⟩
    have hnewest := congrArg List.getLast? hperiods
    rw [List.getLast?_map,List.getLast?_reverse,List.head?_map] at hnewest
    exact hnewest.symm.trans (congrArg (Option.map PeriodOutcome.period) hlast)

end Told

/-- In a history without repeated periods a backtest tells of the draws from its place on, oldest
first, and sums up their outcomes. One over fewer periods tells the newest part of what one over
more periods tells. It is there just if the expression can be read on each of its sources, and where
it fails the longer one fails for the same reason. A target that the history does not have is as good
as none. -/
theorem run_nested {history : List Draw} (h : (history.map Draw.period).Nodup)
    (hne : history ≠ []) {target : Option ℤ} {s : ℕ} (hs : BeginsAt history target s)
    (line : FormulaLine) (overrides : Overrides) {cache cache' : Element.Cache}
    (hc : cache.Faithful history) (hc' : cache'.Faithful history) {p q : ℕ} (hp : 1 ≤ p)
    (hpq : p ≤ q) :
    let size := min p (history.length - s)
    let lineOver (n : ℕ) := (overrides.withPeriods n).applyLine line
    let shorter := (run (lineOver p) history target cache).1
    let longer := (run (lineOver q) history target cache').1
    ((∃ b, shorter = .ok b) ↔
      ∀ x ∈ window (lineOver p).formula history (target.bind (lastPosition? history)),
        ∃ raw, line.formula.rawValue x.2 = .ok raw) ∧
    (∀ e, shorter = .error e → longer = .error e) ∧
    (∀ b', longer = .ok b' → ∃ b, shorter = .ok b ∧ b.outcomes = b'.outcomes.rtake size) ∧
    (∀ b, shorter = .ok b →
      b.outcomes.map PeriodOutcome.period =
        (((history.drop s).take size).map Draw.period).reverse ∧
      b.hits = b.outcomes.map PeriodOutcome.hit ∧ b.hitCount = b.hits.count true ∧
      b.total = size ∧ ∃ o, b.outcomes.getLast? = some o ∧
        history[s]?.map Draw.period = some o.period ∧
        b.labels = o.expanded.map line.formula.resultType.label) ∧
    ((∀ period ∈ target, ∀ d ∈ history, d.period ≠ period) →
      shorter = (run (lineOver p) history none cache).1) := by
  intro size lineOver shorter longer
  let start := target.bind (lastPosition? history)
  have hpos : 0 < size := Nat.lt_min.mpr ⟨hp,Nat.sub_pos_of_lt (hs.lt_length hne)⟩
  have hshorter : shorter = attempt (lineOver p) history target :=
    (run_of_faithful (.of_nodup h) hc (lineOver p) target).1
  have hlonger : longer = attempt (lineOver q) history target :=
    (run_of_faithful (.of_nodup h) hc' (lineOver q) target).1
  have hf : outcomeFrom (lineOver p).formula = outcomeFrom (lineOver q).formula := rfl
  have hpart : window (lineOver p).formula history start =
      (window (lineOver q).formula history start).take p :=
    (take_window overrides line.formula hp hpq history start).symm
  have hdraws : (window (lineOver p).formula history start).map Prod.fst =
      (history.drop s).take size := by
    rw [hs.map_fst_window h,List.take_eq_take_iff,List.length_drop,
      show (lineOver p).formula.periods = p from overrides.periods_withPeriods hp _]
    omega
  have hlength : (window (lineOver q).formula history start).length ≤ history.length - s := by
    have hdraws' := congrArg List.length (hs.map_fst_window h (lineOver q).formula)
    rw [List.length_map,List.length_take,List.length_drop] at hdraws'
    exact hdraws'.trans_le (Nat.min_le_right _ _)
  rw [hshorter,hlonger,attempt,attempt]
  refine ⟨exists_ofWindow_iff,fun e he => ?_,fun b' hb' => ?_,fun b hb => ?_,fun habsent => ?_⟩
  · rw [hpart] at he
    exact ofWindow_of_take_error hf he
  · obtain ⟨b,hb,houtcomes⟩ := ofWindow_take (n := p) hf hb'
    refine ⟨b,by rw [hpart]; exact hb,?_⟩
    have htold : b'.outcomes.length ≤ history.length - s := by
      have hperiods := congrArg List.length (map_period_of_window hb')
      simp only [List.length_map,List.length_reverse] at hperiods
      exact hperiods.trans_le hlength
    rw [houtcomes,List.rtake,List.rtake]
    congr 1
    omega
  · have hwhole : ((history.drop s).take size).length = size := by
      rw [List.length_take,List.length_drop]
      exact Nat.min_eq_left (Nat.min_le_right _ _)
    have hsome : (history.drop s).take size ≠ [] := by
      rw [← List.length_pos_iff,hwhole]
      exact hpos
    obtain ⟨hperiods,htotal,o,ho,hnewest,hlabels⟩ := told_of_window hb hdraws hsome
    obtain ⟨hhits,hcount⟩ := hits_of_window hb
    rw [List.head?_take,if_neg hpos.ne',List.head?_drop] at hnewest
    exact ⟨hperiods,hhits,hcount,htotal.trans hwhole,o,ho,hnewest,hlabels⟩
  · exact hshorter.symm.trans (congrArg Prod.fst (run_of_absent habsent (lineOver p) cache))

/-- The window of five periods ends with the history after two of them. -/
theorem run_nested_threeDraws :
    let history := [lowDraw 3 9 (by decide),lowDraw 2 8 (by decide),lowDraw 1 7 (by decide)]
    let backtest (n : ℕ) (capacity : ℕ) :=
      (run ((Overrides.none.withPeriods n).applyLine (repeatedTail 15)) history (some 2)
        (Memo.empty capacity)).1
    ((history.map Draw.period).Nodup ∧ history ≠ [] ∧ BeginsAt history (some 2) 1 ∧
      1 ≤ 1 ∧ 1 ≤ 5) ∧
    ∃ b b', backtest 1 1 = .ok b ∧ backtest 5 0 = .ok b' ∧ b.outcomes = b'.outcomes.rtake 1 ∧
      b'.outcomes.map PeriodOutcome.period = [1,2] ∧ b'.total = 2 := by
  intro history backtest
  have hperiods : (history.map Draw.period).Nodup := by decide
  have hne : history ≠ [] := List.cons_ne_nil _ _
  have hplace : BeginsAt history (some 2) 1 := .named (by decide : 1 < history.length)
  have hshorter := run_nested hperiods hne hplace (repeatedTail 15) .none
    (Element.Cache.faithful_empty history 1) (Element.Cache.faithful_empty history 0)
    (le_refl 1) (by decide : 1 ≤ 5)
  have hlonger := run_nested hperiods hne hplace (repeatedTail 15) .none
    (Element.Cache.faithful_empty history 0) (Element.Cache.faithful_empty history 0)
    (by decide : 1 ≤ 5) (le_refl 5)
  obtain ⟨b',hb'⟩ : ∃ b', backtest 5 0 = .ok b' := by
    cases hrun : backtest 5 0 with
    | ok b' => exact ⟨b',rfl⟩
    | error e =>
      have hok : (backtest 5 0).isOk = true := by decide +kernel
      rw [hrun] at hok
      cases hok
  obtain ⟨b,hb,houtcomes⟩ := hshorter.2.2.1 b' hb'
  obtain ⟨htold,-,-,htotal,-⟩ := hlonger.2.2.2.1 b' hb'
  exact ⟨⟨hperiods,hne,hplace,by decide,by decide⟩,b,b',hb,hb',houtcomes,htold,htotal⟩

end Backtest

end DrawFormula
