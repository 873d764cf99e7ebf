import DrawFormula.Proofs.Backtest.Locality

/-! # One memo for many formulas

Formulas that are tested one after the other share a memo, so that one formula meets what the
formulas before it left there. As long as look-ups answer with a draw's own values, each formula is
tested as if it were alone, in whichever order, and whatever the memo has room for.
-/
namespace DrawFormula.Backtest
variable {history : List Draw} {overrides : Overrides} {target : Option ℤ}

theorem threaded_runAll : Threaded (fun line => run (overrides.applyLine line) history target)
    (runAll history overrides target) where
  nil _ := rfl
  cons_error := by
    intro line before e after hfirst rest
    rw [runAll,hfirst]
  cons_ok := by
    intro line before b after hfirst rest
    rw [runAll,hfirst]
    simp only
    rcases runAll history overrides target rest after with ⟨others,last⟩
    cases others <;> rfl

theorem line_of_run {line : FormulaLine} {cache : Element.Cache} {b : Backtest}
    (h : (run line history target cache).1 = .ok b) : b.line = line := by
  unfold run at h
  dsimp only at h
  split at h
  · cases h
  · cases h
    rfl

theorem lines_of_runAll {lines : List FormulaLine} {cache : Element.Cache} {bs : List Backtest}
    (h : (runAll history overrides target lines cache).1 = .ok bs) :
    bs.map Backtest.line = lines.map overrides.applyLine := by
  induction lines generalizing cache bs with
  | nil =>
    cases h
    rfl
  | cons line rest ih =>
    obtain ⟨b,after,others,hfirst,hrest,rfl⟩ := threaded_runAll.of_cons_ok (Prod.ext h rfl)
    rw [List.map_cons,List.map_cons,line_of_run (congrArg Prod.fst hfirst),
      ih (congrArg Prod.fst hrest)]

/-- Whether a backtest is that of some formula, with whatever in its memo. -/
def IsRun (history : List Draw) (target : Option ℤ) (b : Backtest) : Prop :=
  ∃ line cache, (run line history target cache).1 = .ok b

/-- A backtest sums up an outcome of each draw of its window. -/
theorem IsRun.exists_outcomes {b : Backtest} (h : IsRun history target b) :
    ∃ os, b = ofOutcomes b.line
        (if (target.bind (lastPosition? history)).isSome then target else none) os ∧
      List.Forall₂ (IsOutcome b.line.formula) ((window b.line.formula history
        (target.bind (lastPosition? history))).map Prod.fst) os := by
  obtain ⟨line,cache,hrun⟩ := h
  obtain rfl := line_of_run hrun
  rcases hos : outcomesOf b.line.formula (window b.line.formula history
    (target.bind (lastPosition? history))) cache with ⟨e | os,after⟩
  · simp only [run,hos] at hrun
    cases hrun
  · simp only [run,hos] at hrun
    exact ⟨os,(Except.ok.inj hrun).symm,forall₂_isOutcome hos⟩

theorem isRun_of_mem_runAll {lines : List FormulaLine} {cache : Element.Cache} {bs : List Backtest}
    (h : (runAll history overrides target lines cache).1 = .ok bs) :
    ∀ b ∈ bs, IsRun history target b := by
  induction lines generalizing cache bs with
  | nil =>
    cases h
    intro b hb
    cases hb
  | cons line rest ih =>
    obtain ⟨b,after,others,hfirst,hrest,rfl⟩ := threaded_runAll.of_cons_ok (Prod.ext h rfl)
    have hb : IsRun history target b :=
      ⟨overrides.applyLine line,cache,congrArg Prod.fst hfirst⟩
    exact List.forall_mem_cons.mpr ⟨hb,ih (congrArg Prod.fst hrest)⟩

theorem runAll_of_answers {I : Element.Cache → Prop} (h : ∀ d ∈ history, Element.Answers I d)
    (lines : List FormulaLine) {cache : Element.Cache} (hi : I cache) :
    (runAll history overrides target lines cache).1 =
        lines.mapM (fun line => attempt (overrides.applyLine line) history target) ∧
      I (runAll history overrides target lines cache).2 :=
  threaded_runAll.mapM
    (fun _ _ _ hbefore => run_of_answers (fun p hp => h p.2 (mem_window hp).2) hbefore) hi

theorem runAll_of_faithful (hc : Element.Consistent history) (overrides : Overrides)
    (target : Option ℤ) (lines : List FormulaLine) {cache : Element.Cache}
    (h : cache.Faithful history) :
    (runAll history overrides target lines cache).1 =
        lines.mapM (fun line => attempt (overrides.applyLine line) history target) ∧
      Element.Cache.Faithful history (runAll history overrides target lines cache).2 :=
  runAll_of_answers (fun _ hd => hc.answers hd) lines h

/-- In a history without repeated periods formulas that share a memo of any size give, place by
place, what each of them gives alone without a memo, or else the first failure among these. -/
theorem runAll_eq_alone {history : List Draw} (h : (history.map Draw.period).Nodup)
    (overrides : Overrides) (target : Option ℤ) (lines : List FormulaLine) (capacity : ℕ) :
    let alone := fun line => runAlone (overrides.applyLine line) history target 0
    (runAll history overrides target lines (Memo.empty capacity)).1 = lines.mapM alone ∧
      ∀ bs : List Backtest,
        (runAll history overrides target lines (Memo.empty capacity)).1 = .ok bs ↔
          lines.map alone = bs.map .ok := by
  intro alone
  have halone : alone = fun line => attempt (overrides.applyLine line) history target :=
    funext fun line => run_empty (overrides.applyLine line) history target
  have hall : (runAll history overrides target lines (Memo.empty capacity)).1 =
      lines.mapM alone := by
    rw [halone]
    exact (runAll_of_faithful (.of_nodup h) overrides target lines
      (Element.Cache.faithful_empty history capacity)).1
  refine ⟨hall,fun bs => ?_⟩
  rw [hall,mapM_eq_ok_iff]

theorem runAll_twoWindows :
    let history := [lowDraw 3 9 (by decide),lowDraw 2 8 (by decide),lowDraw 1 7 (by decide)]
    (history.map Draw.period).Nodup ∧ ∃ long short,
      (runAll history .none (some 3) [repeatedTail 3,repeatedTail 2] (Memo.empty 1)).1 =
          .ok [long,short] ∧
        long.predictionAt? 0 = some (8,[8]) ∧ short.predictionAt? 1 = some (7,[7]) := by
  intro history
  have hperiods : (history.map Draw.period).Nodup := by decide
  have hplace : 0 < history.length := by decide
  have hlong := runAlone_at hperiods hplace (repeatedTail 3) 0
  have hshort := runAlone_at hperiods hplace (repeatedTail 2) 0
  obtain ⟨-,hall⟩ := runAll_eq_alone hperiods .none (some 3) [repeatedTail 3,repeatedTail 2] 1
  have hmap := congrArg₂ (fun x y => [x,y]) hlong hshort
  exact ⟨hperiods,_,_,(hall [_,_]).mpr hmap,rfl,rfl⟩

end DrawFormula.Backtest
