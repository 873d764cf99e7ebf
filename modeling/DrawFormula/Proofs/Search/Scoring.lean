import DrawFormula.Proofs.Backtest.Locality
import DrawFormula.Proofs.Search.Contract

/-! # The backtests behind the scores

A search keeps one memo for all the formulas that it scores. In a history without repeated periods
the memo has no influence, so that the score of a text depends on the text alone. Each draw of the
window but one is predicted from the draw before it in time, whatever its own special number; the
oldest draw of the history has none before it and predicts itself, so that a window that reaches it
scores it on its own special number.
-/
namespace DrawFormula.Search
variable {γ : Type} {setting : Setting}

/-! ## Scores -/

/-- A text is scored by a backtest with the memo of the search, unless it was seen before. -/
theorem runFrom_score (text : Text) (s : State γ) : (score setting text).runFrom s =
    if s.seen.contains text then (.ok none,s)
    else
      let seen := { s with seen := s.seen.insert text }
      match Formula.readLine text 0 with
      | .error (.fault _) => (.ok none,seen)
      | .error (.numeral e) => (.error e,seen)
      | .ok line =>
        let tested := Backtest.run line setting.history setting.anchor s.cache
        (tested.1.map fun b => some (Found.ofBacktest text b),
          { seen with evaluations := s.evaluations + 1, cache := tested.2 }) := by
  unfold score
  rw [runFrom_get_bind]
  split
  · rfl
  · rw [runFrom_set_bind]
    cases Formula.readLine text 0 with
    | error e => cases e <;> rfl
    | ok line =>
      simp only [runFrom_get_bind]
      rcases Backtest.run line setting.history setting.anchor s.cache with ⟨tested,cache⟩
      cases tested <;> rfl

/-- A score changes what was seen, the number of evaluations and the memo only. -/
theorem after_score (setting : Setting) (text : Text) (s : State γ) : ∃ seen evaluations cache,
    ((score setting text).runFrom s).2 =
      { s with seen := seen, evaluations := evaluations, cache := cache } := by
  rw [runFrom_score]
  split
  · exact ⟨s.seen,s.evaluations,s.cache,rfl⟩
  · rcases Formula.readLine text 0 with (_ | _) | line <;> exact ⟨_,_,_,rfl⟩

theorem exists_backtest_of_score {text : Text} {s : State γ} {r : Found}
    (h : ((score setting text).runFrom s).1 = .ok (some r)) :
    ∃ line b, Formula.readLine text 0 = .ok line ∧
      (Backtest.run line setting.history setting.anchor s.cache).1 = .ok b ∧
        r = Found.ofBacktest text b := by
  rw [runFrom_score] at h
  split at h
  · cases h
  · cases hread : Formula.readLine text 0 with
    | error e => cases e <;> simp [hread] at h
    | ok line =>
      cases hrun : (Backtest.run line setting.history setting.anchor s.cache).1 with
      | error e => simp [hread,hrun,Except.map] at h
      | ok b =>
        simp only [hread,hrun,Except.map,Except.ok.injEq,Option.some.injEq] at h
        exact ⟨line,b,rfl,hrun,h.symm⟩

/-! ## Reachable states -/

/-- The states that scoring, in whichever order, and steps without use of the memo lead to. -/
inductive Reachable (setting : Setting) : State γ → Prop where
  | initial (random : γ) (cacheSize : ℕ) : Reachable setting (.initial random cacheSize)
  | scored {s : State γ} (text : Text) :
    Reachable setting s → Reachable setting ((score setting text).runFrom s).2
  | other {s s' : State γ} : Reachable setting s → s'.cache = s.cache → Reachable setting s'

theorem reachable_contract (slack : Float) : Contract setting slack
    (Reachable setting : State γ → Prop) True (fun _ => True) fun _ => True := by
  refine .of_scores (fun _ _ hcache _ _ _ hs => hs.other hcache) (fun _ _ _ hs => hs.other rfl) ?_
  intro text _ s hs
  refine ⟨?_,hs.scored text⟩
  cases ((score setting text).runFrom s).1 with
  | error e => exact trivial
  | ok found => exact fun _ _ => trivial

/-- A search, whatever its strategy, goes through reachable states only. -/
theorem Reachable.explored [RandomSource γ] {s : State γ} (hs : Reachable setting s) :
    Reachable setting ((explore setting).runFrom s).2 :=
  Contract.explored reachable_contract hs

theorem Reachable.faithful (hc : Element.Consistent setting.history) {s : State γ}
    (hs : Reachable setting s) : s.cache.Faithful setting.history := by
  induction hs with
  | initial random cacheSize => exact Element.Cache.faithful_empty setting.history cacheSize
  | @scored s text _ ih =>
    rw [runFrom_score]
    split
    · exact ih
    · cases Formula.readLine text 0 with
      | error e => cases e <;> exact ih
      | ok line => exact (Backtest.run_of_faithful hc ih line setting.anchor).2
  | other _ hcache ih => rwa [hcache]

/-- The score of a text that was not seen before depends on the text alone. -/
theorem score_of_unseen (hc : Element.Consistent setting.history) {s : State γ}
    (hs : Reachable setting s) {text : Text} (hseen : s.seen.contains text = false)
    {line : FormulaLine} (hread : Formula.readLine text 0 = .ok line) :
    ((score setting text).runFrom s).1 =
      (Backtest.attempt line setting.history setting.anchor).map
        fun b => some (Found.ofBacktest text b) := by
  rw [runFrom_score,hseen]
  simp only [Bool.false_eq_true,if_false,hread,
    (Backtest.run_of_faithful hc (hs.faithful hc) line setting.anchor).1]

/-! ## Predictions -/

/-- The window of a search begins at the newest draw. -/
theorem attempt_anchor (h : (setting.history.map Draw.period).Nodup) (line : FormulaLine) :
    Backtest.attempt line setting.history setting.anchor =
      Backtest.ofWindow line setting.anchor
        (Backtest.window line.formula setting.history (some 0)) := by
  unfold Setting.anchor
  cases hh : setting.history with
  | nil =>
    have hempty : ∀ ownSource n, Backtest.pairs ownSource n [] = [] := by
      intro ownSource n
      cases n <;> rfl
    simp [Backtest.attempt,Backtest.window,hempty]
  | cons d rest =>
    rw [hh] at h
    have hplace := Backtest.lastPosition?_of_nodup h (Nat.zero_lt_succ rest.length)
    rw [List.getElem_cons_zero] at hplace
    simp [Backtest.attempt,hplace]

/-- The setting with another draw in place of one. -/
def Setting.replace (setting : Setting) (i : ℕ) (d : Draw) : Setting :=
  { setting with history := setting.history.set i d }

theorem Setting.map_period_replace {i : ℕ} (hi : i < setting.history.length) {d : Draw}
    (hd : d.period = setting.history[i].period) :
    (setting.replace i d).history.map Draw.period = setting.history.map Draw.period :=
  Backtest.map_period_set hi hd

theorem Setting.anchor_replace {i : ℕ} (hi : i < setting.history.length) {d : Draw}
    (hd : d.period = setting.history[i].period) :
    (setting.replace i d).anchor = setting.anchor := by
  unfold anchor
  rw [← List.head?_map,← List.head?_map,map_period_replace hi hd]

/-- A setting of a search over a history, with windows of two periods. -/
def overTwo (history : List Draw) : Setting where
  history := history
  params := .make 50 1 .fast [.tail] 0 2 0 0 none none none
  interval := 0
  evaluationLimit := 0
  overtime := false
  stop := fun _ => false

theorem read_repeatedTail : Formula.readLine (Backtest.repeatedTail 2).rawText 0 =
    .ok (Backtest.repeatedTail 2) := by
  decide +kernel

theorem unseen_initial (random : γ) (cacheSize : ℕ) (text : Text) :
    (State.initial random cacheSize).seen.contains text = false :=
  Std.HashSet.contains_empty

/-- The backtest behind a score predicts each draw of its window from the one before it in time and
only the oldest draw of the history from itself. So no other draw has an influence on its own
prediction. -/
theorem score_predictions (h : (setting.history.map Draw.period).Nodup) {s : State γ}
    (hs : Reachable setting s) {text : Text} {r : Found}
    (hr : ((score setting text).runFrom s).1 = .ok (some r)) :
    ∃ line b, Formula.readLine text 0 = .ok line ∧
      (Backtest.run line setting.history setting.anchor s.cache).1 = .ok b ∧
      r = Found.ofBacktest text b ∧
      (∀ k, (b.predictionAt? k).map Except.ok = if k < line.formula.periods then
        setting.history[k]?.map fun d =>
          Backtest.predictionFrom line.formula (setting.history[k + 1]?.getD d) else none) ∧
      ∀ (i : ℕ) (d : Draw) (hi : i + 1 < setting.history.length),
        d.period = setting.history[i].period →
        ∀ s' : State γ, Reachable (setting.replace i d) s' → ∀ b',
          (Backtest.run line (setting.replace i d).history (setting.replace i d).anchor
            s'.cache).1 = .ok b' → b'.predictionAt? i = b.predictionAt? i := by
  obtain ⟨line,b,hread,hb,hfound⟩ := exists_backtest_of_score hr
  have hc := Element.Consistent.of_nodup h
  have hwindow := hb
  rw [(Backtest.run_of_faithful hc (hs.faithful hc) line setting.anchor).1,
    attempt_anchor h] at hwindow
  refine ⟨line,b,hread,hb,hfound,fun k => ?_,fun i d hi hd s' hs' b' hb' => ?_⟩
  · rw [Backtest.predictionAt?_of_window hwindow,Backtest.getElem?_window_some]
    split
    · simp only [Nat.zero_add,Option.map_map]
      rfl
    · rfl
  · have hi' : i < setting.history.length := by omega
    have h' : ((setting.replace i d).history.map Draw.period).Nodup := by
      rwa [Setting.map_period_replace hi' hd]
    have hc' := Element.Consistent.of_nodup h'
    rw [(Backtest.run_of_faithful hc' (hs'.faithful hc') line _).1,attempt_anchor h',
      Setting.anchor_replace hi' hd] at hb'
    exact Backtest.predictionAt?_congr hwindow hb' (Backtest.source_window_set hi (by omega))

theorem score_threeDraws :
    let setting := overTwo [Backtest.lowDraw 3 9 (by decide),Backtest.lowDraw 2 8 (by decide),
      Backtest.lowDraw 1 7 (by decide)]
    let s : State Unit := .initial () 1
    (setting.history.map Draw.period).Nodup ∧ Reachable setting s ∧
      ∃ b, ((score setting (Backtest.repeatedTail 2).rawText).runFrom s).1 =
          .ok (some (.ofBacktest (Backtest.repeatedTail 2).rawText b)) ∧
        b.predictionAt? 1 = some (7,[7]) := by
  intro setting s
  have hperiods : (setting.history.map Draw.period).Nodup := by decide
  have hreachable : Reachable setting s := .initial () 1
  have hscore := score_of_unseen (.of_nodup hperiods) hreachable (unseen_initial () 1 _)
    read_repeatedTail
  obtain ⟨line,b,hread,-,hfound,hpredictions,-⟩ := score_predictions hperiods hreachable hscore
  refine ⟨hperiods,hreachable,b,by rw [← hfound,hscore]; rfl,?_⟩
  rw [read_repeatedTail] at hread
  obtain rfl := Except.ok.inj hread
  have hsource : Backtest.predictionFrom (Backtest.repeatedTail 2).formula
    (Backtest.lowDraw 1 7 (by decide)) = .ok (7,[7]) := by decide +kernel
  have hplace : (b.predictionAt? 1).map Except.ok = some (Backtest.predictionFrom
    (Backtest.repeatedTail 2).formula (Backtest.lowDraw 1 7 (by decide))) := hpredictions 1
  rw [hsource] at hplace
  obtain ⟨prediction,hb,hok⟩ := Option.map_eq_some_iff.mp hplace
  rw [hb,Except.ok.inj hok]

/-- Another special number of the oldest draw changes what is predicted for this very draw, so that
it is hit both times. -/
theorem score_oldestDraw :
    let text := (Backtest.repeatedTail 2).rawText
    let setting := overTwo [Backtest.lowDraw 2 9 (by decide),Backtest.lowDraw 1 7 (by decide)]
    let changed := setting.replace 1 (Backtest.lowDraw 1 8 (by decide))
    let s : State Unit := .initial () 0
    ∃ b b', ((score setting text).runFrom s).1 = .ok (some (.ofBacktest text b)) ∧
      ((score changed text).runFrom s).1 = .ok (some (.ofBacktest text b')) ∧
      b.predictionAt? 1 = some (7,[7]) ∧ b'.predictionAt? 1 = some (8,[8]) ∧
      b.hits = [true,false] ∧ b'.hits = [true,false] := by
  intro text setting changed s
  have hperiods : (setting.history.map Draw.period).Nodup := by decide
  have hperiods' : (changed.history.map Draw.period).Nodup := by decide
  have hscore := score_of_unseen (.of_nodup hperiods) (.initial () 0)
    (unseen_initial () 0 text) read_repeatedTail
  have hchanged := score_of_unseen (.of_nodup hperiods') (.initial () 0)
    (unseen_initial () 0 text) read_repeatedTail
  exact ⟨_,_,hscore,hchanged,rfl,rfl,rfl,rfl⟩

end DrawFormula.Search
