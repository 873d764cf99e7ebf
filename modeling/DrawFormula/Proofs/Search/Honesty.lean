import DrawFormula.Proofs.Search.Building
import DrawFormula.Proofs.Search.Scoring
import DrawFormula.Proofs.Search.Selection

/-! # Honest results

Every formula that a search returns was scored by a backtest that gives the same alone and without a
memo, and it is near the target. The ranking only selects: no formula is returned twice, and none
beyond the number that was asked for. A search fails for one reason, settings that are too long to
be written.
-/
namespace DrawFormula.Search
variable {γ : Type} {setting : Setting} {Fit : Text → Prop} {slack : Float}

/-! ## Scores of sums of names -/

/-- A sum of names that was not seen before gets its score, whatever the memo holds. -/
theorem runFrom_score_built (hc : Element.Consistent setting.history)
    (hl : 0 ≤ setting.params.left) (hr : 0 ≤ setting.params.right) {t : ResultType} {most : ℕ}
    {text : Text} (h : BuiltFor setting.params t most text) {s : State γ}
    (hs : s.cache.Faithful setting.history) :
    ∃ (r : Found) (cache : Element.Cache), r.formula = text ∧ Verified setting r ∧
      cache.Faithful setting.history ∧ (score setting text).runFrom s =
        if s.seen.contains text then (.ok none,s)
        else (.ok (some r),{ s with
          seen := s.seen.insert text, evaluations := s.evaluations + 1, cache := cache }) := by
  obtain ⟨r,rfl,line,b,hread,hb,hfound⟩ := exists_verified hl hr h
  obtain ⟨hrun,hafter⟩ := Backtest.run_of_faithful hc hs line setting.anchor
  refine ⟨r,_,rfl,⟨line,b,hread,hb,hfound⟩,hafter,?_⟩
  rw [Backtest.runAlone,Backtest.run_empty] at hb
  rw [runFrom_score,hread]
  simp only [hrun,hb,Except.map,← hfound]

/-- Whether a score is that of a backtest alone, of a text that is fit. -/
def Earned (setting : Setting) (Fit : Text → Prop) (r : Found) : Prop :=
  Verified setting r ∧ Fit r.formula

/-- Whether the memo agrees with the history and the results have their scores and are near the
target. -/
structure Honest (setting : Setting) (Fit : Text → Prop) (slack : Float) (s : State γ) : Prop where
  faithful : s.cache.Faithful setting.history
  results : ∀ r ∈ s.results, Earned setting Fit r ∧ within setting.params r slack = true

theorem Honest.other {s s' : State γ} (h : Honest setting Fit slack s)
    (hcache : s'.cache = s.cache) (hresults : s'.results = s.results) :
    Honest setting Fit slack s' :=
  ⟨by rw [hcache]; exact h.faithful,by rw [hresults]; exact h.results⟩

theorem honest_initial (random : γ) (cacheSize : ℕ) :
    Honest setting Fit slack (.initial random cacheSize) :=
  ⟨Element.Cache.faithful_empty setting.history cacheSize,by simp [State.initial]⟩

section Contracts
variable (hc : Element.Consistent setting.history) (hl : 0 ≤ setting.params.left)
  (hr : 0 ≤ setting.params.right)
include hc hl hr

theorem honest_contract
    (hfit : ∀ text, Fit text → ∃ t most, BuiltFor setting.params t most text) :
    Contract setting slack (Honest setting Fit slack : State γ → Prop)
      (¬ setting.params.Writable) Fit (Earned setting Fit) := by
  refine .of_scores (fun _ _ hcache _ _ hresults hs => hs.other hcache hresults)
    (fun _ _ hfound hs => ⟨hs.faithful,List.forall_mem_append.mpr ⟨hs.results,hfound⟩⟩) ?_
  intro text htext s hs
  obtain ⟨t,most,hbuilt⟩ := hfit text htext
  obtain ⟨r,cache,rfl,hverified,hcache,hrun⟩ := runFrom_score_built hc hl hr hbuilt hs.faithful
  rw [hrun]
  split
  · exact ⟨by simp [Meets],hs⟩
  · refine ⟨?_,hcache,hs.results⟩
    rintro _ ⟨⟩
    exact ⟨hverified,htext⟩

omit hc in
theorem honest_breeding [RandomSource γ] (hstrategy : setting.params.strategy ≠ .deep) :
    Breeding setting (Honest setting (Bred setting.params) slack : State γ → Prop)
      (¬ setting.params.Writable) (Bred setting.params) (Earned setting (Bred setting.params)) where
  seeded _ hx := fromSeed_bred (fun _ _ hs => hs.other rfl rfl) id hx
  templated _ hx := fromTemplate_bred (fun _ _ hs => hs.other rfl rfl) id hstrategy hx
  mutated _ hearned := mutate_bred (fun _ _ hs => hs.other rfl rfl) id hl hr hearned.2
  free := randomFormula_bred (fun _ _ hs => hs.other rfl rfl) id
  results _ hs r hmem := (hs.results r hmem).1

end Contracts

/-- Whether a text is a sum of names as long as a combination may be, written with the settings of
the search. -/
def Combined (p : Params) (text : Text) : Prop := ∃ t, BuiltFor p t p.strategy.mostElements text

theorem honest_combining : Combining setting
    (Honest setting (Combined setting.params) slack : State γ → Prop) (¬ setting.params.Writable)
    (Combined setting.params) :=
  fun x _ names hnames => (compose_ensures id x.2 x.1 names).mono
    fun _ ⟨hw,htext⟩ => ⟨x.1,hw,x.2,names,hnames,htext⟩

/-! ## Searches -/

section Searches
variable [RandomSource γ] (hc : Element.Consistent setting.history)
  (hl : 0 ≤ setting.params.left) (hr : 0 ≤ setting.params.right)
include hc hl hr

/-- A search stays honest, with the narrow tolerance if it is exhaustive. -/
theorem explore_honest (random : γ) (cacheSize : ℕ) :
    let after := (explore setting).runFrom (.initial random cacheSize)
    Meets (¬ setting.params.Writable) (fun _ => True) after.1 ∧
      ∃ Fit, Honest setting Fit (if setting.params.strategy = .deep then 1 else 2) after.2 := by
  intro after
  by_cases hstrategy : setting.params.strategy = .deep
  · have hexplore : explore setting = (exhaust setting : Step γ Unit) := explore_of_deep hstrategy
    obtain ⟨hmeets,hafter⟩ := (honest_contract hc hl hr fun _ ⟨t,ht⟩ => ⟨t,_,ht⟩).exhaust_ensures
      honest_combining _ (honest_initial random cacheSize)
    simp only [after,hexplore,hstrategy,if_true]
    exact ⟨hmeets,_,hafter⟩
  · have hexplore : explore setting = (evolve setting : Step γ Unit) :=
      explore_of_ne_deep hstrategy
    obtain ⟨hmeets,hafter⟩ := (honest_contract hc hl hr fun _ ⟨t,_,ht⟩ => ⟨t,_,ht⟩).evolve_ensures
      (honest_breeding hl hr hstrategy) _ (honest_initial random cacheSize)
    simp only [after,hexplore,if_neg hstrategy]
    exact ⟨hmeets,_,hafter⟩

end Searches

/-- In a history without repeated periods a search returns formulas with the scores that a backtest
gives each of them alone and without a memo. They are near the target, no two are the same, and no
more are returned than asked for. A search whose settings can be written returns. -/
theorem run_found [RandomSource γ] (h : (setting.history.map Draw.period).Nodup)
    (hl : 0 ≤ setting.params.left) (hr : 0 ≤ setting.params.right) (random : γ) (cacheSize : ℕ) :
    (setting.params.Writable →
      ∃ found, (run setting (.initial random cacheSize)).1 = .ok found) ∧
    ∀ found, (run setting (.initial random cacheSize)).1 = .ok found →
      (∀ r ∈ found, (∃ line b, Formula.readLine r.formula 0 = .ok line ∧
          Backtest.runAlone line setting.history setting.anchor 0 = .ok b ∧
          r.hitRate = b.hitRate ∧ r.hitCount = b.hitCount ∧ r.total = b.total ∧
          r.fitness = Backtest.recency b.hits) ∧
        within setting.params r 2 = true ∧
        (setting.params.strategy = .deep → within setting.params r 1 = true)) ∧
      (found.map Found.formula).Nodup ∧ found.length ≤ setting.params.maxCount := by
  obtain ⟨hmeets,Fit,hhonest⟩ := explore_honest (.of_nodup h) hl hr random cacheSize
  unfold run
  split
  · exact ⟨fun _ => ⟨[],rfl⟩,by rintro _ ⟨⟩; simp⟩
  · split
    · next e s hrun =>
      rw [hrun] at hmeets
      exact ⟨fun hw => absurd hw hmeets,nofun⟩
    · next s hrun =>
      rw [hrun] at hhonest
      refine ⟨fun _ => ⟨_,rfl⟩,?_⟩
      rintro _ ⟨⟩
      obtain ⟨hmem,hnodup,hlength⟩ := rank_spec setting.params s.results
      refine ⟨fun r hr => ?_,hnodup,hlength⟩
      obtain ⟨⟨⟨line,b,hread,hb,hfound⟩,-⟩,hnear⟩ := hhonest.results r (hmem r hr)
      refine ⟨⟨line,b,hread,hb,?_⟩,?_,fun hdeep => by simpa [hdeep] using hnear⟩
      · rw [hfound]
        exact ⟨rfl,rfl,rfl,rfl⟩
      · split at hnear
        · exact within_two hnear
        · exact hnear

theorem run_found_twoDraws :
    let setting := overTwo [Backtest.lowDraw 2 9 (by decide),Backtest.lowDraw 1 7 (by decide)]
    let s := State.initial (Twister.ofTexts ["search".toList,['0']]) 1
    (setting.history.map Draw.period).Nodup ∧ setting.params.Writable ∧
      ∃ found, (run setting s).1 = .ok found ∧ found.length ≤ 1 ∧
        ∀ r ∈ found, ∃ line b, Formula.readLine r.formula 0 = .ok line ∧
          Backtest.runAlone line setting.history (some 2) 0 = .ok b ∧ r.hitRate = b.hitRate := by
  intro setting s
  have hperiods : (setting.history.map Draw.period).Nodup := by decide
  have hwidths : 0 ≤ setting.params.left ∧ 0 ≤ setting.params.right := by decide
  have hwritable : setting.params.Writable := by
    unfold Params.Writable
    decide
  obtain ⟨hreturns,hfound⟩ := run_found hperiods hwidths.1 hwidths.2
    (Twister.ofTexts ["search".toList,['0']]) 1
  obtain ⟨found,hrun⟩ := hreturns hwritable
  obtain ⟨hhonest,-,hlength⟩ := hfound found hrun
  refine ⟨hperiods,hwritable,found,hrun,hlength,fun r hr => ?_⟩
  obtain ⟨⟨line,b,hread,hb,hrate,-⟩,-⟩ := hhonest r hr
  exact ⟨line,b,hread,hb,hrate⟩

end DrawFormula.Search
