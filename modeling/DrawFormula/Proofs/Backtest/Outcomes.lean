import DrawFormula.Backtest.Basic
import DrawFormula.Proofs.Expression.Remembered

/-! # The outcomes of a window

A backtest attempts one outcome for each draw of its window and gives all of them, or the first
number that cannot be read. Each outcome comes from two draws of the history: the one that is
tested and the one that predicts it, which is the draw before it in time wherever there is one.
A memo has no influence on this as long as look-ups answer with a draw's own values.
-/
namespace DrawFormula

/-- What the expression of a formula is worth on a draw, before the offset. -/
def Formula.rawValue (f : Formula) (d : Draw) : Except NumeralError ℤ :=
  (Expression.evaluate f.expression d f.usesSorted (Memo.empty 0)).1

namespace Backtest

/-! ## Attempts one after the other -/

section Attempts
variable {α β ε : Type}

/-- A list of attempts gives its values just if each of them does. -/
theorem mapM_eq_ok_iff {f : α → Except ε β} {xs : List α} {ys : List β} :
    xs.mapM f = .ok ys ↔ xs.map f = ys.map .ok := by
  induction xs generalizing ys with
  | nil =>
    rw [List.mapM_nil,List.map_nil,eq_comm (a := []),List.map_eq_nil_iff]
    constructor
    · intro h
      exact (Except.ok.inj h).symm
    · rintro rfl
      rfl
  | cons x xs ih =>
    rw [List.mapM_cons,List.map_cons]
    cases hx : f x with
    | error e => cases ys <;> simp [bind,Except.bind]
    | ok y =>
      cases hxs : xs.mapM f with
      | error e =>
        have hne : ∀ zs : List β, xs.map f ≠ zs.map .ok := by
          intro zs h
          rw [ih.mpr h] at hxs
          cases hxs
        cases ys <;> simp [bind,Except.bind,hne]
      | ok zs =>
        have hinj : Function.Injective (List.map (Except.ok : β → Except ε β)) :=
          List.map_injective_iff.mpr fun _ _ => Except.ok.inj
        cases ys <;> simp [bind,Except.bind,pure,Except.pure,ih.mp hxs,hinj.eq_iff]

theorem exists_of_mapM_eq_error {f : α → Except ε β} {xs : List α} {e : ε}
    (h : xs.mapM f = .error e) : ∃ x ∈ xs, f x = .error e := by
  induction xs with
  | nil => cases h
  | cons x xs ih =>
    rw [List.mapM_cons] at h
    cases hx : f x with
    | error e' =>
      simp only [hx,bind,Except.bind,Except.error.injEq] at h
      exact ⟨x,by simp,by rw [hx,h]⟩
    | ok y =>
      cases hxs : xs.mapM f with
      | error e' =>
        simp only [hx,hxs,bind,Except.bind,Except.error.injEq] at h
        obtain ⟨x',hx',he⟩ := ih (by rw [hxs,h])
        exact ⟨x',by simp [hx'],he⟩
      | ok ys =>
        simp only [hx,hxs,bind,Except.bind,pure,Except.pure] at h
        cases h

/-- Attempts one after the other that pass a state on; the first failure ends them. -/
structure Threaded {σ : Type} (step : α → σ → Except ε β × σ)
    (all : List α → σ → Except ε (List β) × σ) : Prop where
  nil : ∀ s, all [] s = (.ok [],s)
  cons_error : ∀ {x s e s'}, step x s = (.error e,s') → ∀ xs, all (x :: xs) s = (.error e,s')
  cons_ok : ∀ {x s y s'}, step x s = (.ok y,s') → ∀ xs,
    all (x :: xs) s = ((all xs s').1.map (y :: ·),(all xs s').2)

/-- Attempts that pass a state on are independent of it if each of them is, from the states of a
class into the class. -/
theorem Threaded.mapM {σ : Type} {I : σ → Prop} {step : α → σ → Except ε β × σ}
    {all : List α → σ → Except ε (List β) × σ} (ht : Threaded step all) {f : α → Except ε β}
    {xs : List α} (h : ∀ x ∈ xs, ∀ s, I s → (step x s).1 = f x ∧ I (step x s).2)
    {s : σ} (hi : I s) : (all xs s).1 = xs.mapM f ∧ I (all xs s).2 := by
  induction xs generalizing s with
  | nil =>
    rw [ht.nil]
    exact ⟨rfl,hi⟩
  | cons x xs ih =>
    obtain ⟨hfirst,hafter⟩ := h x (by simp) s hi
    have hrest := ih (fun y hy => h y (by simp [hy])) hafter
    rw [List.mapM_cons,← hfirst]
    rcases hs : step x s with ⟨value,after⟩
    rw [hs] at hafter hrest
    cases value with
    | error e =>
      rw [ht.cons_error hs]
      exact ⟨rfl,hafter⟩
    | ok y =>
      obtain ⟨hvalues,hlast⟩ := hrest
      rw [ht.cons_ok hs,← hvalues]
      exact ⟨by cases (all xs after).1 <;> rfl,hlast⟩

section Appending
variable {σ : Type} {step : α → σ → Except ε β × σ} {all : List α → σ → Except ε (List β) × σ}
variable (ht : Threaded step all)
include ht

theorem Threaded.of_cons_ok {x : α} {xs : List α} {ys : List β} {s s' : σ}
    (h : all (x :: xs) s = (.ok ys,s')) : ∃ y after zs,
      step x s = (.ok y,after) ∧ all xs after = (.ok zs,s') ∧ ys = y :: zs := by
  rcases hs : step x s with ⟨e | y,after⟩
  · rw [ht.cons_error hs] at h
    cases h
  · rw [ht.cons_ok hs] at h
    rcases hrest : all xs after with ⟨e | zs,last⟩
    · rw [hrest] at h
      cases h
    · rw [hrest] at h
      cases h
      exact ⟨y,after,zs,rfl,hrest,rfl⟩

theorem Threaded.length_eq {xs : List α} {ys : List β} {s s' : σ} (h : all xs s = (.ok ys,s')) :
    ys.length = xs.length := by
  induction xs generalizing s ys with
  | nil =>
    rw [ht.nil] at h
    cases h
    rfl
  | cons x xs ih =>
    obtain ⟨y,after,zs,-,hrest,rfl⟩ := ht.of_cons_ok h
    rw [List.length_cons,List.length_cons,ih hrest]

/-- Further attempts go on from the state that the first ones leave. -/
theorem Threaded.append_ok {xs : List α} {ys : List β} {s s' : σ} (h : all xs s = (.ok ys,s'))
    (more : List α) :
    all (xs ++ more) s = ((all more s').1.map (ys ++ ·),(all more s').2) := by
  induction xs generalizing s ys with
  | nil =>
    rw [ht.nil] at h
    cases h
    rw [List.nil_append]
    rcases all more s' with ⟨e | zs,last⟩ <;> rfl
  | cons x xs ih =>
    obtain ⟨y,after,zs,hfirst,hrest,rfl⟩ := ht.of_cons_ok h
    rw [List.cons_append,ht.cons_ok hfirst,ih hrest]
    rcases all more s' with ⟨e | others,last⟩ <;> rfl

/-- A failure among the first attempts ends all of them. -/
theorem Threaded.append_error {xs : List α} {s s' : σ} {e : ε} (h : all xs s = (.error e,s'))
    (more : List α) : all (xs ++ more) s = (.error e,s') := by
  induction xs generalizing s with
  | nil =>
    rw [ht.nil] at h
    cases h
  | cons x xs ih =>
    rw [List.cons_append]
    rcases hs : step x s with ⟨e' | y,after⟩
    · rw [ht.cons_error hs] at h ⊢
      exact h
    · rw [ht.cons_ok hs] at h ⊢
      rcases hrest : all xs after with ⟨e' | ys,last⟩
      · rw [hrest] at h
        cases h
        rw [ih hrest]
        rfl
      · rw [hrest] at h
        cases h

end Appending

end Attempts

/-! ## Windows -/

theorem getElem?_pairs (ownSource : Bool) (n : ℕ) (history : List Draw) (k : ℕ) :
    (pairs ownSource n history)[k]? = if k < n then
      history[k]?.map fun d => (d,if ownSource ∧ k = 0 then d else history[k + 1]?.getD d)
    else none := by
  induction n generalizing ownSource history k with
  | zero => simp [pairs]
  | succ n ih =>
    cases history with
    | nil => simp [pairs]
    | cons d rest =>
      cases k with
      | zero => simp [pairs,List.head?_eq_getElem?]
      | succ k => simp [pairs,ih]

/-- Without a named target the newest draw predicts itself. -/
theorem getElem?_window_none (f : Formula) (history : List Draw) (k : ℕ) :
    (window f history none)[k]? = if k < f.periods then
      history[k]?.map fun d => (d,if k = 0 then d else history[k + 1]?.getD d)
    else none := by
  simp [window,getElem?_pairs]

/-- Every draw from the target on is predicted from the one before it in time, if there is one. -/
theorem getElem?_window_some (f : Formula) (history : List Draw) (s k : ℕ) :
    (window f history (some s))[k]? = if k < f.periods then
      history[s + k]?.map fun d => (d,history[s + k + 1]?.getD d)
    else none := by
  simp [window,getElem?_pairs,Nat.add_assoc]

theorem length_pairs (ownSource : Bool) (n : ℕ) (history : List Draw) :
    (pairs ownSource n history).length = min n history.length := by
  induction n generalizing ownSource history with
  | zero => simp [pairs]
  | succ n ih => cases history <;> simp [pairs,ih]

theorem length_window_some (f : Formula) (history : List Draw) (s : ℕ) :
    (window f history (some s)).length = min f.periods (history.length - s) := by
  simp [window,length_pairs]

theorem mem_pairs {ownSource : Bool} {n : ℕ} {history : List Draw} {p : Draw × Draw}
    (h : p ∈ pairs ownSource n history) : p.1 ∈ history ∧ p.2 ∈ history := by
  induction n generalizing ownSource history with
  | zero => cases h
  | succ n ih =>
    cases history with
    | nil => cases h
    | cons d rest =>
      rcases List.mem_cons.mp h with rfl | h
      · refine ⟨by simp,?_⟩
        cases ownSource with
        | true => simp
        | false => cases rest <;> simp
      · exact (ih h).imp (List.mem_cons_of_mem d) (List.mem_cons_of_mem d)

theorem mem_window {f : Formula} {history : List Draw} {start : Option ℕ} {p : Draw × Draw}
    (h : p ∈ window f history start) : p.1 ∈ history ∧ p.2 ∈ history := by
  cases start with
  | none => exact mem_pairs h
  | some s => exact (mem_pairs h).imp List.mem_of_mem_drop List.mem_of_mem_drop

/-- In a history without repeated periods the place of a period is the place of its draw. -/
theorem lastPosition?_of_nodup {history : List Draw} (h : (history.map Draw.period).Nodup) {s : ℕ}
    (hs : s < history.length) : lastPosition? history history[s].period = some s := by
  have hfound : (history.reverse.findIdx? fun d => d.period = history[s].period) =
      some (history.length - 1 - s) := by
    rw [List.findIdx?_eq_some_iff_getElem]
    refine ⟨by rw [List.length_reverse]; omega,?_,fun k hk => ?_⟩
    · simp only [List.getElem_reverse,decide_eq_true_eq]
      congr 2
      omega
    · have hlater : history.length - 1 - k < (history.map Draw.period).length := by
        rw [List.length_map]
        omega
      have hplace : s < (history.map Draw.period).length := by rwa [List.length_map]
      have hne : (history.map Draw.period)[history.length - 1 - k] ≠ (history.map Draw.period)[s] :=
        h.getElem_inj_iff.not.mpr (by omega)
      simpa [List.getElem_reverse] using hne
  rw [lastPosition?,hfound,Option.map_some]
  congr 1
  omega

/-! ## Outcomes -/

/-- The outcome of a draw that is predicted from another one. -/
def outcomeFrom (f : Formula) (p : Draw × Draw) : Except NumeralError PeriodOutcome :=
  (f.rawValue p.2).map (outcomeOf f p.1)

/-- The outcome of a draw and the memo that the evaluation leaves. -/
def outcomeWith (f : Formula) (p : Draw × Draw) (cache : Element.Cache) :
    Except NumeralError PeriodOutcome × Element.Cache :=
  let raw := Expression.evaluate f.expression p.2 f.usesSorted cache
  (raw.1.map (outcomeOf f p.1),raw.2)

theorem threaded_outcomesOf (f : Formula) : Threaded (outcomeWith f) (outcomesOf f) where
  nil _ := rfl
  cons_error := by
    intro p before e after hfirst rest
    unfold outcomeWith at hfirst
    rw [outcomesOf]
    rcases hv : Expression.evaluate f.expression p.2 f.usesSorted before with ⟨value,next⟩
    rw [hv] at hfirst
    cases value <;> cases hfirst
    rfl
  cons_ok := by
    intro p before o after hfirst rest
    unfold outcomeWith at hfirst
    rw [outcomesOf]
    rcases hv : Expression.evaluate f.expression p.2 f.usesSorted before with ⟨value,next⟩
    rw [hv] at hfirst
    cases value with
    | error e => cases hfirst
    | ok raw =>
      cases hfirst
      simp only
      rcases outcomesOf f rest next with ⟨outcomes,last⟩
      cases outcomes <;> rfl

section Drawn
variable {f : Formula}

/-- Whether an outcome is one of a draw, whatever is predicted for it. -/
def IsOutcome (f : Formula) (d : Draw) (o : PeriodOutcome) : Prop := ∃ raw, o = outcomeOf f d raw

theorem IsOutcome.hit_eq {d : Draw} {o : PeriodOutcome} (h : IsOutcome f d o) :
    o.hit = o.expanded.contains (f.resultType.valueOf d.special (some d.zodiacYear)) := by
  obtain ⟨raw,rfl⟩ := h
  rfl

theorem isOutcome_of_outcomeWith {p : Draw × Draw} {cache after : Element.Cache} {o : PeriodOutcome}
    (h : outcomeWith f p cache = (.ok o,after)) : IsOutcome f p.1 o := by
  have hvalue := congrArg Prod.fst h
  simp only [outcomeWith] at hvalue
  cases hraw : (Expression.evaluate f.expression p.2 f.usesSorted cache).1 with
  | error e =>
    rw [hraw] at hvalue
    cases hvalue
  | ok raw =>
    rw [hraw] at hvalue
    exact ⟨raw,(Except.ok.inj hvalue).symm⟩

theorem forall₂_isOutcome {ps : List (Draw × Draw)} {cache after : Element.Cache}
    {os : List PeriodOutcome} (h : outcomesOf f ps cache = (.ok os,after)) :
    List.Forall₂ (IsOutcome f) (ps.map Prod.fst) os := by
  induction ps generalizing cache os with
  | nil =>
    cases h
    exact .nil
  | cons p rest ih =>
    obtain ⟨o,next,others,hfirst,hrest,rfl⟩ := (threaded_outcomesOf f).of_cons_ok h
    exact .cons (isOutcome_of_outcomeWith hfirst) (ih hrest)

theorem map_period_of_forall₂ {ds : List Draw} {os : List PeriodOutcome}
    (h : List.Forall₂ (IsOutcome f) ds os) : os.map PeriodOutcome.period = ds.map Draw.period := by
  induction h with
  | nil => rfl
  | cons hfirst _ ih =>
    obtain ⟨raw,rfl⟩ := hfirst
    rw [List.map_cons,List.map_cons,ih]
    rfl

end Drawn

theorem outcomesOf_of_answers {I : Element.Cache → Prop} (f : Formula) {ps : List (Draw × Draw)}
    (h : ∀ p ∈ ps, Element.Answers I p.2) {cache : Element.Cache} (hi : I cache) :
    (outcomesOf f ps cache).1 = ps.mapM (outcomeFrom f) ∧ I (outcomesOf f ps cache).2 := by
  refine (threaded_outcomesOf f).mapM (fun p hp before hbefore => ?_) hi
  obtain ⟨hvalue,hafter⟩ :=
    Expression.evaluate_of_answers (h p hp) f.usesSorted f.expression hbefore
  exact ⟨congrArg (Except.map (outcomeOf f p.1)) hvalue,hafter⟩

/-- The backtest that sums up a window. -/
def ofWindow (line : FormulaLine) (target : Option ℤ) (w : List (Draw × Draw)) :
    Except NumeralError Backtest :=
  (w.mapM (outcomeFrom line.formula)).map (ofOutcomes line target)

/-- The backtest of a formula at a target. -/
def attempt (line : FormulaLine) (history : List Draw) (target : Option ℤ) :
    Except NumeralError Backtest :=
  let start := target.bind (lastPosition? history)
  ofWindow line (if start.isSome then target else none) (window line.formula history start)

theorem run_of_answers {I : Element.Cache → Prop} {line : FormulaLine} {history : List Draw}
    {target : Option ℤ}
    (h : ∀ p ∈ window line.formula history (target.bind (lastPosition? history)),
      Element.Answers I p.2) {cache : Element.Cache} (hi : I cache) :
    (run line history target cache).1 = attempt line history target ∧
      I (run line history target cache).2 := by
  obtain ⟨houtcomes,hafter⟩ := outcomesOf_of_answers line.formula h hi
  rw [attempt,ofWindow,← houtcomes]
  rcases ho : outcomesOf line.formula
    (window line.formula history (target.bind (lastPosition? history))) cache with ⟨outcomes,after⟩
  rw [ho] at hafter
  simp only [run,ho]
  cases outcomes with
  | error e => exact ⟨rfl,hafter⟩
  | ok os => exact ⟨rfl,hafter⟩

/-- A memo that agrees with the history has no influence on a backtest. -/
theorem run_of_faithful {history : List Draw} (hc : Element.Consistent history)
    {cache : Element.Cache} (h : cache.Faithful history) (line : FormulaLine)
    (target : Option ℤ) :
    (run line history target cache).1 = attempt line history target ∧
      Element.Cache.Faithful history (run line history target cache).2 :=
  run_of_answers (fun _ hp => hc.answers (mem_window hp).2) h

theorem run_empty (line : FormulaLine) (history : List Draw) (target : Option ℤ) :
    (run line history target (Memo.empty 0)).1 = attempt line history target :=
  (run_of_answers (I := fun cache => cache.enabled = false)
    (fun p _ => Element.answers_of_disabled p.2) rfl).1

/-- A formula with a value for every draw can be tested. -/
theorem exists_attempt (line : FormulaLine)
    (h : ∀ d, ∃ v, line.formula.rawValue d = .ok v) (history : List Draw) (target : Option ℤ) :
    ∃ b, attempt line history target = .ok b := by
  rw [attempt,ofWindow]
  cases hm : (window line.formula history (target.bind (lastPosition? history))).mapM
      (outcomeFrom line.formula) with
  | ok os => exact ⟨_,rfl⟩
  | error e =>
    obtain ⟨p,-,herror⟩ := exists_of_mapM_eq_error hm
    obtain ⟨v,hv⟩ := h p.2
    simp [outcomeFrom,hv,Except.map] at herror

/-! ## The outcome of each draw -/

/-- The outcome of the draw that is so many places before the newest one of the window. -/
def outcomeAt? (b : Backtest) (k : ℕ) : Option PeriodOutcome := b.outcomes.reverse[k]?

/-- What is predicted for that draw, and the prediction with its neighbours. -/
def predictionAt? (b : Backtest) (k : ℕ) : Option (ℤ × List ℤ) :=
  (b.outcomeAt? k).map fun o => (o.value,o.expanded)

/-- What a draw predicts, and the prediction with its neighbours. -/
def predictionFrom (f : Formula) (source : Draw) : Except NumeralError (ℤ × List ℤ) :=
  (f.rawValue source).map fun raw =>
    let value := f.resultType.reduce (raw + f.offset)
    (value,f.resultType.expand value f.left f.right)

/-- The draw that is tested has no part in its prediction. -/
theorem map_outcomeFrom (f : Formula) (p : Draw × Draw) :
    (outcomeFrom f p).map (fun o => (o.value,o.expanded)) = predictionFrom f p.2 := by
  unfold outcomeFrom predictionFrom
  cases f.rawValue p.2 <;> rfl

theorem period_of_outcomeFrom {f : Formula} {p : Draw × Draw} {o : PeriodOutcome}
    (h : outcomeFrom f p = .ok o) : o.period = p.1.period := by
  unfold outcomeFrom at h
  cases hraw : f.rawValue p.2 with
  | error e =>
    rw [hraw] at h
    cases h
  | ok raw =>
    rw [hraw] at h
    cases h
    rfl

section Windows
variable {line : FormulaLine} {target : Option ℤ} {w : List (Draw × Draw)} {b : Backtest}
variable (h : ofWindow line target w = .ok b)

include h in
/-- A backtest sums up one outcome for each draw of its window. -/
theorem exists_outcomes_of_window : ∃ os : List PeriodOutcome,
    w.map (outcomeFrom line.formula) = os.map .ok ∧ b = ofOutcomes line target os := by
  unfold ofWindow at h
  cases hm : w.mapM (outcomeFrom line.formula) with
  | error e => simp [hm,Except.map] at h
  | ok os =>
    simp only [hm,Except.map,Except.ok.injEq] at h
    exact ⟨os,mapM_eq_ok_iff.mp hm,h.symm⟩

include h in
theorem outcomeAt?_of_window (k : ℕ) :
    (b.outcomeAt? k).map Except.ok = w[k]?.map (outcomeFrom line.formula) := by
  obtain ⟨os,hos,rfl⟩ := exists_outcomes_of_window h
  rw [← List.getElem?_map,hos,List.getElem?_map]
  simp [outcomeAt?,ofOutcomes]

include h in
theorem periodAt?_of_window (k : ℕ) :
    (b.outcomeAt? k).map PeriodOutcome.period = w[k]?.map fun p => p.1.period := by
  have hoc := outcomeAt?_of_window h k
  cases hw : w[k]? with
  | none =>
    rw [hw,Option.map_none,Option.map_eq_none_iff] at hoc
    rw [hoc]
    rfl
  | some p =>
    rw [hw,Option.map_some] at hoc
    obtain ⟨o,ho,hfrom⟩ := Option.map_eq_some_iff.mp hoc
    rw [ho,Option.map_some,Option.map_some,period_of_outcomeFrom hfrom.symm]

include h in
theorem predictionAt?_of_window (k : ℕ) :
    (b.predictionAt? k).map Except.ok = (w[k]?.map Prod.snd).map (predictionFrom line.formula) := by
  have hprediction : Except.map (fun o => (o.value,o.expanded)) ∘ outcomeFrom line.formula =
      predictionFrom line.formula ∘ Prod.snd :=
    funext fun p => map_outcomeFrom line.formula p
  have hoc := congrArg (Option.map (Except.map fun o => (o.value,o.expanded)))
    (outcomeAt?_of_window h k)
  rw [Option.map_map,Option.map_map,hprediction] at hoc
  rw [predictionAt?,Option.map_map,Option.map_map]
  exact hoc

include h in
/-- In a window that is summed up every predicting draw has a value. -/
theorem exists_rawValue_of_window {p : Draw × Draw} (hp : p ∈ w) :
    ∃ raw, line.formula.rawValue p.2 = .ok raw := by
  obtain ⟨os,hos,-⟩ := exists_outcomes_of_window h
  have hfrom : outcomeFrom line.formula p ∈ os.map Except.ok := hos ▸ List.mem_map_of_mem hp
  obtain ⟨o,-,ho⟩ := List.mem_map.mp hfrom
  unfold outcomeFrom at ho
  cases hraw : line.formula.rawValue p.2 with
  | error e => simp [hraw,Except.map] at ho
  | ok raw => exact ⟨raw,rfl⟩

include h in
theorem total_of_window : b.total = w.length := by
  obtain ⟨os,hos,rfl⟩ := exists_outcomes_of_window h
  have hlength := congrArg List.length hos
  rw [List.length_map,List.length_map] at hlength
  simp [ofOutcomes,hlength]

end Windows

/-- A window cannot be summed up only if one of its draws is predicted from a draw on which the
expression cannot be read. -/
theorem exists_source_of_window_error {line : FormulaLine} {target : Option ℤ}
    {w : List (Draw × Draw)} {e : NumeralError} (h : ofWindow line target w = .error e) :
    ∃ p ∈ w, line.formula.rawValue p.2 = .error e := by
  unfold ofWindow at h
  cases hm : w.mapM (outcomeFrom line.formula) with
  | ok os => simp [hm,Except.map] at h
  | error e' =>
    simp only [hm,Except.map,Except.error.injEq] at h
    subst h
    obtain ⟨p,hp,hfrom⟩ := exists_of_mapM_eq_error hm
    refine ⟨p,hp,?_⟩
    unfold outcomeFrom at hfrom
    cases hraw : line.formula.rawValue p.2 with
    | error e => simpa [hraw,Except.map] using hfrom
    | ok raw => simp [hraw,Except.map] at hfrom

theorem exists_ofWindow_iff {line : FormulaLine} {target : Option ℤ} {w : List (Draw × Draw)} :
    (∃ b, ofWindow line target w = .ok b) ↔
      ∀ p ∈ w, ∃ raw, line.formula.rawValue p.2 = .ok raw := by
  constructor
  · rintro ⟨b,hb⟩ p hp
    exact exists_rawValue_of_window hb hp
  · intro h
    cases hw : ofWindow line target w with
    | ok b => exact ⟨b,rfl⟩
    | error e =>
      obtain ⟨p,hp,hraw⟩ := exists_source_of_window_error hw
      obtain ⟨raw,hread⟩ := h p hp
      rw [hraw] at hread
      cases hread

/-! ## Two windows -/

section Two
variable {line : FormulaLine} {target : Option ℤ} {w w' : List (Draw × Draw)} {b b' : Backtest}
variable (h : ofWindow line target w = .ok b) (h' : ofWindow line target w' = .ok b') {k : ℕ}

include h h' in
theorem outcomeAt?_congr (hk : w'[k]? = w[k]?) : b'.outcomeAt? k = b.outcomeAt? k := by
  have hinj : Function.Injective (Option.map (Except.ok : PeriodOutcome →
      Except NumeralError PeriodOutcome)) := Option.map_injective fun _ _ => Except.ok.inj
  apply hinj
  rw [outcomeAt?_of_window h,outcomeAt?_of_window h',hk]

include h h' in
theorem predictionAt?_congr (hk : w'[k]?.map Prod.snd = w[k]?.map Prod.snd) :
    b'.predictionAt? k = b.predictionAt? k := by
  have hinj : Function.Injective (Option.map (Except.ok : ℤ × List ℤ →
      Except NumeralError (ℤ × List ℤ))) := Option.map_injective fun _ _ => Except.ok.inj
  apply hinj
  rw [predictionAt?_of_window h,predictionAt?_of_window h',hk]

end Two

/-! ## A formula that predicts the special number again -/

section Low
variable {special : ℤ} (h : 7 ≤ special ∧ special ≤ 49)

include h in
theorem nodup_low : [1,2,3,4,5,6,special].Nodup := by
  simp
  omega

include h in
theorem inRange_low : ∀ n ∈ [1,2,3,4,5,6,special], Number.least ≤ n ∧ n ≤ Number.greatest := by
  simp [Number.least,Number.greatest]
  omega

end Low

/-- A draw of the ping numbers 1 to 6. -/
def lowDraw (period special : ℤ) (h : 7 ≤ special ∧ special ≤ 49) : Draw where
  period := period
  numbers := [1,2,3,4,5,6,special]
  zodiacYear := 1
  weekday := none
  stemBranch := none
  length_numbers := rfl
  nodup_numbers := nodup_low h
  numbers_inRange := inRange_low h
  year_inRange := by decide

/-- The tail of the special number, expected to come again. -/
def repeatedTail (periods : ℕ) : FormulaLine :=
  let f : Formula := ⟨.drawn,.tail,['特','号'],0,periods,0,0⟩
  ⟨f,f.text,0⟩

end Backtest

end DrawFormula
