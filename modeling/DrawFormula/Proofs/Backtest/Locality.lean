import DrawFormula.Proofs.Backtest.Outcomes

/-! # What a backtest depends on

In a history without repeated periods the outcome of a draw depends on that draw and on the one
before it in time and on nothing else, whatever the memo. A draw has an influence on the prediction
for the draw after it only, never on its own, and a backtest at a named target is the same in every
history that holds its window and the draw before the window.
-/
namespace DrawFormula.Backtest

/-- The backtest of a formula alone, with a memo of its own. -/
def runAlone (line : FormulaLine) (history : List Draw) (target : Option ℤ) (capacity : ℕ) :
    Except NumeralError Backtest :=
  (run line history target (Memo.empty capacity)).1

theorem runAlone_eq_attempt {history : List Draw} (h : (history.map Draw.period).Nodup)
    (line : FormulaLine) (target : Option ℤ) (capacity : ℕ) :
    runAlone line history target capacity = attempt line history target :=
  (run_of_faithful (.of_nodup h) (Element.Cache.faithful_empty history capacity) line target).1

/-! ## Windows that agree -/

section Replaced
variable {f : Formula} {history : List Draw} {s i k : ℕ} {d : Draw}

theorem map_period_set (hi : i < history.length) (hd : d.period = history[i].period) :
    (history.set i d).map Draw.period = history.map Draw.period := by
  have hplace : i < (history.map Draw.period).length := by rwa [List.length_map]
  have hperiod : d.period = (history.map Draw.period)[i] := by rw [hd,List.getElem_map]
  rw [List.map_set,hperiod,List.set_getElem_self]

/-- A replaced draw is met only where it is tested and where it predicts. -/
theorem getElem?_window_set (htested : s + k ≠ i) (hsource : s + k + 1 ≠ i) :
    (window f (history.set i d) (some s))[k]? = (window f history (some s))[k]? := by
  simp only [getElem?_window_some,List.getElem?_set_ne (Ne.symm htested),
    List.getElem?_set_ne (Ne.symm hsource)]

/-- A draw with another before it in time does not predict itself. -/
theorem source_window_set (hi : i + 1 < history.length) (hsource : s + k + 1 ≠ i) :
    (window f (history.set i d) (some s))[k]?.map Prod.snd =
      (window f history (some s))[k]?.map Prod.snd := by
  by_cases htested : s + k = i
  · subst htested
    have hplace : s + k < history.length := by omega
    simp [getElem?_window_some,hplace,hi,apply_ite]
  · rw [getElem?_window_set htested hsource]

theorem length_window_set : (window f (history.set i d) (some s)).length =
    (window f history (some s)).length := by
  simp [length_window_some]

end Replaced

/-- Where a replaced draw makes a backtest fail it is met as a source, and it fails by itself. -/
theorem source_of_error {line : FormulaLine} {target : Option ℤ} {history : List Draw} {s i : ℕ}
    {d : Draw} {b : Backtest} {e : NumeralError}
    (hb : ofWindow line target (window line.formula history (some s)) = .ok b)
    (hi : i + 1 < history.length)
    (he : ofWindow line target (window line.formula (history.set i d) (some s)) = .error e) :
    s < i ∧ i ≤ s + line.formula.periods ∧ line.formula.rawValue d = .error e := by
  obtain ⟨p,hp,hraw⟩ := exists_source_of_window_error he
  obtain ⟨k,hk⟩ := List.mem_iff_getElem?.mp hp
  by_cases hsource : s + k + 1 = i
  · subst hsource
    rw [getElem?_window_some] at hk
    split at hk
    · next hperiods =>
      obtain ⟨tested,-,rfl⟩ := Option.map_eq_some_iff.mp hk
      have hplace : s + k + 1 < history.length := by omega
      rw [List.getElem?_set_self hplace] at hraw
      exact ⟨by omega,by omega,hraw⟩
    · cases hk
  · -- elsewhere the source is one of the other backtest too, where it did not fail
    have hsame := source_window_set (f := line.formula) (s := s) (d := d) hi hsource
    rw [hk,Option.map_some,eq_comm,Option.map_eq_some_iff] at hsame
    obtain ⟨q,hq,hqp⟩ := hsame
    obtain ⟨raw,hread⟩ := exists_rawValue_of_window hb (List.mem_of_getElem? hq)
    rw [hqp,hraw] at hread
    cases hread

/-- Histories have the same window if they agree on it and on the draw before it. -/
theorem window_congr {f : Formula} {history other : List Draw} {s s' : ℕ}
    (h : (other.drop s').take (f.periods + 1) = (history.drop s).take (f.periods + 1)) :
    window f other (some s') = window f history (some s) := by
  have hplace : ∀ k, k ≤ f.periods → other[s' + k]? = history[s + k]? := by
    intro k hk
    have hk' := congrArg (fun draws : List Draw => draws[k]?) h
    simpa [List.getElem?_take,Nat.lt_succ_of_le hk] using hk'
  apply List.ext_getElem?
  intro k
  simp only [getElem?_window_some]
  split
  · next hk => rw [hplace k hk.le,Nat.add_assoc,Nat.add_assoc,hplace (k + 1) hk]
  · rfl

/-! ## Backtests at a period of the history -/

section Targeted
variable {history : List Draw} {s : ℕ}

/-- At a period of the history the window begins at its draw. -/
theorem runAlone_at (h : (history.map Draw.period).Nodup) (hs : s < history.length)
    (line : FormulaLine) (capacity : ℕ) :
    runAlone line history (some history[s].period) capacity =
      ofWindow line (some history[s].period) (window line.formula history (some s)) := by
  simp [runAlone_eq_attempt h,attempt,lastPosition?_of_nodup h hs]

theorem periodAt?_at {line : FormulaLine} {target : Option ℤ} {b : Backtest}
    (h : ofWindow line target (window line.formula history (some s)) = .ok b) (k : ℕ) :
    (b.outcomeAt? k).map PeriodOutcome.period =
      ((history.drop s).take line.formula.periods)[k]?.map Draw.period := by
  rw [periodAt?_of_window h,getElem?_window_some,List.getElem?_take,List.getElem?_drop]
  split
  · rw [Option.map_map]
    rfl
  · rfl

/-- The backtest at a target where one draw is replaced by another of its period. -/
theorem runAlone_set {i : ℕ} {d : Draw} (h : (history.map Draw.period).Nodup)
    (hs : s < history.length) (hi : i < history.length) (hd : d.period = history[i].period)
    (line : FormulaLine) (capacity : ℕ) :
    runAlone line (history.set i d) (some history[s].period) capacity =
      ofWindow line (some history[s].period)
        (window line.formula (history.set i d) (some s)) := by
  have hperiods := map_period_set hi hd
  have hs' : s < (history.set i d).length := by rwa [List.length_set]
  have hperiod : (history.set i d)[s].period = history[s].period := by
    rw [List.getElem_set]
    split
    · next his =>
      subst his
      exact hd
    · rfl
  rw [← hperiod]
  exact runAlone_at (by rwa [hperiods]) hs' line capacity

/-- Histories that agree on a window and on the draw before it give the same backtest. -/
theorem runAlone_congr {other : List Draw} (h : (history.map Draw.period).Nodup)
    (hother : (other.map Draw.period).Nodup) (hs : s < history.length) {line : FormulaLine}
    {s' : ℕ} (hslice : (other.drop s').take (line.formula.periods + 1) =
      (history.drop s).take (line.formula.periods + 1)) (capacity capacity' : ℕ) :
    runAlone line other (some history[s].period) capacity' =
      runAlone line history (some history[s].period) capacity := by
  have hhead := congrArg List.head? hslice
  simp only [List.head?_take,Nat.add_one_ne_zero,if_false,List.head?_drop,
    List.getElem?_eq_getElem hs] at hhead
  obtain ⟨hs',hplace⟩ := List.getElem?_eq_some_iff.mp hhead
  rw [runAlone_at h hs,← window_congr hslice,← hplace]
  exact runAlone_at hother hs' line capacity'

theorem take_drop_append (newer older : List Draw) {n : ℕ} (hwithin : s + n < history.length) :
    ((newer ++ history ++ older).drop (newer.length + s)).take (n + 1) =
      (history.drop s).take (n + 1) := by
  have hs : s ≤ history.length := by omega
  have hlength : n + 1 ≤ (history.drop s).length := by
    rw [List.length_drop]
    omega
  rw [List.append_assoc,← List.drop_drop,List.drop_left,List.drop_append_of_le_length hs,
    List.take_append_of_le_length hlength]

end Targeted

/-- A backtest at a target is local. It is there just if the expression can be read on each source,
and it tells of the draws from the target on. A draw with another before it in time has an influence
on its own outcome and on the prediction for the draw after it, and can fail only there. Every
history that holds the window and the draw before it gives the same backtest, whatever comes before
and after. -/
theorem runAlone_local {history : List Draw} (h : (history.map Draw.period).Nodup) {s : ℕ}
    (hs : s < history.length) (line : FormulaLine) (capacity : ℕ) :
    ((∃ b, runAlone line history (some history[s].period) capacity = .ok b) ↔
      ∀ p ∈ window line.formula history (some s), ∃ raw, line.formula.rawValue p.2 = .ok raw) ∧
    (∀ b, runAlone line history (some history[s].period) capacity = .ok b →
      (∀ k, (b.outcomeAt? k).map PeriodOutcome.period =
        ((history.drop s).take line.formula.periods)[k]?.map Draw.period) ∧
      ∀ (i : ℕ) (d : Draw) (hi : i + 1 < history.length), d.period = history[i].period →
        (∀ b', runAlone line (history.set i d) (some history[s].period) capacity = .ok b' →
          b'.total = b.total ∧ ∀ k, s + k + 1 ≠ i →
            b'.predictionAt? k = b.predictionAt? k ∧
              (s + k ≠ i → b'.outcomeAt? k = b.outcomeAt? k)) ∧
        ∀ e, runAlone line (history.set i d) (some history[s].period) capacity = .error e →
          s < i ∧ i ≤ s + line.formula.periods ∧ line.formula.rawValue d = .error e) ∧
    (∀ (other : List Draw) (s' capacity' : ℕ), (other.map Draw.period).Nodup →
      (other.drop s').take (line.formula.periods + 1) =
        (history.drop s).take (line.formula.periods + 1) →
      runAlone line other (some history[s].period) capacity' =
        runAlone line history (some history[s].period) capacity) ∧
    ∀ (newer older : List Draw) (capacity' : ℕ), s + line.formula.periods < history.length →
      ((newer ++ history ++ older).map Draw.period).Nodup →
      runAlone line (newer ++ history ++ older) (some history[s].period) capacity' =
        runAlone line history (some history[s].period) capacity := by
  refine ⟨?_,fun b hb => ?_,fun other s' capacity' hother hslice => ?_,
    fun newer older capacity' hwithin hperiods => ?_⟩
  · rw [runAlone_at h hs]
    exact exists_ofWindow_iff
  · rw [runAlone_at h hs] at hb
    refine ⟨periodAt?_at hb,fun i d hi hd => ?_⟩
    rw [runAlone_set h hs (by omega) hd]
    refine ⟨fun b' hb' => ⟨?_,fun k hk => ⟨?_,fun htested => ?_⟩⟩,fun e he => ?_⟩
    · rw [total_of_window hb',total_of_window hb,length_window_set]
    · exact predictionAt?_congr hb hb' (source_window_set hi hk)
    · exact outcomeAt?_congr hb hb' (getElem?_window_set htested hk)
    · exact source_of_error hb hi he
  · exact runAlone_congr h hother hs hslice capacity capacity'
  · exact runAlone_congr h hperiods hs (take_drop_append newer older hwithin) capacity capacity'

/-- Another special number of the middle draw changes what it predicts and not what is predicted
for it. -/
theorem runAlone_threeDraws :
    let history := [lowDraw 3 9 (by decide),lowDraw 2 8 (by decide),lowDraw 1 7 (by decide)]
    let changed := history.set 1 (lowDraw 2 20 (by decide))
    ((history.map Draw.period).Nodup ∧ 0 < history.length) ∧
      ∃ b b', runAlone (repeatedTail 2) history (some 3) 1 = .ok b ∧
        runAlone (repeatedTail 2) changed (some 3) 1 = .ok b' ∧
        b'.predictionAt? 1 = b.predictionAt? 1 ∧
        b.predictionAt? 0 = some (8,[8]) ∧ b'.predictionAt? 0 = some (0,[0]) := by
  intro history changed
  have hperiods : (history.map Draw.period).Nodup := by decide
  have hchanged : (changed.map Draw.period).Nodup := by decide
  have hplace : 0 < history.length := by decide
  obtain ⟨-,hruns,-⟩ := runAlone_local hperiods hplace (repeatedTail 2) 1
  have hb := runAlone_at hperiods hplace (repeatedTail 2) 1
  have hb' := runAlone_at hchanged (by decide : 0 < changed.length) (repeatedTail 2) 1
  obtain ⟨hsame,-⟩ := (hruns _ hb).2 1 (lowDraw 2 20 (by decide)) (by decide) rfl
  obtain ⟨-,hplaces⟩ := hsame _ hb'
  exact ⟨⟨hperiods,hplace⟩,_,_,hb,hb',(hplaces 1 (by decide)).1,rfl,rfl⟩

end DrawFormula.Backtest
