import DrawFormula.Proofs.Backtest.Shared
import DrawFormula.Proofs.History.Entries
import DrawFormula.Service.State

/-! # Answers whatever the size of the memo

A request for backtests has one answer for every size of the memo, none included, as long as the
draws of one period in its history agree on every element. A memo is keyed by periods, so that
a history in which one period comes with different draws is answered differently with a memo and
without.
-/
namespace DrawFormula

/-! ## The draws of a request -/

namespace RawDraw

theorem period_of_toDraw {r : RawDraw} {d : Draw} (h : r.toDraw = .ok d) : d.period = r.period := by
  unfold toDraw Draw.make at h
  split at h
  · split at h
    · split at h
      · split at h
        · cases h
          rfl
        · cases h
      · cases h
    · cases h
  · cases h

theorem exists_of_mem_toHistory {rs : List RawDraw} {history : List Draw}
    (h : toHistory rs = .ok history) {d : Draw} (hd : d ∈ history) :
    ∃ r ∈ rs, r.toDraw = .ok d := by
  unfold toHistory at h
  cases hm : rs.mapM toDraw with
  | error e => simp [hm,Except.map] at h
  | ok draws =>
    simp only [hm,Except.map,Except.ok.injEq] at h
    subst h
    have hmem : Except.ok d ∈ rs.map toDraw := by
      rw [Backtest.mapM_eq_ok_iff.mp hm]
      exact List.mem_map_of_mem (List.mem_mergeSort.mp hd)
    exact List.mem_map.mp hmem

theorem consistent_toHistory {rs : List RawDraw}
    (h : ∀ a ∈ rs, ∀ b ∈ rs, a.period = b.period → a = b) {history : List Draw}
    (hh : toHistory rs = .ok history) : Element.Consistent history := by
  apply Element.Consistent.of_eq
  intro d hd d' hd' hp
  obtain ⟨a,ha,had⟩ := exists_of_mem_toHistory hh hd
  obtain ⟨b,hb,hbd⟩ := exists_of_mem_toHistory hh hd'
  have hab : a = b := h a ha b hb (by rw [← period_of_toDraw had,← period_of_toDraw hbd,hp])
  rw [hab,hbd] at had
  exact (Except.ok.inj had).symm

end RawDraw

namespace Service.State
variable {s : State} {given : List RawDraw}

/-- The service's own history repeats no period. -/
theorem consistent_historyFor
    (h : ∀ history, RawDraw.toHistory given = .ok history → Element.Consistent history)
    {history : List Draw} (hh : s.historyFor given = .ok history) : Element.Consistent history := by
  unfold historyFor at hh
  split at hh
  · cases hh
    exact .of_nodup (History.Descending.nodup s.history.descending)
  · exact h history hh

theorem withHistory_congr {f g : List Draw → Response}
    (h : ∀ history, s.historyFor given = .ok history → f history = g history) :
    s.withHistory given f = s.withHistory given g := by
  unfold withHistory
  split
  · rfl
  · rfl
  · next draws _ hd => exact h draws hd

end Service.State

/-! ## Memos of two sizes -/

namespace VerifyRequest
variable {r : VerifyRequest} {history : List Draw}

theorem testBatches_of_faithful (hc : Element.Consistent history) (batch : Batch)
    (groups : List (List FormulaLine)) (tested : List Backtest) {cache cache' : Element.Cache}
    (h : cache.Faithful history) (h' : cache'.Faithful history) :
    r.testBatches history batch groups tested cache =
      r.testBatches history batch groups tested cache' := by
  induction groups generalizing tested cache cache' with
  | nil => rfl
  | cons lines rest ih =>
    obtain ⟨hone,hafter⟩ :=
      Backtest.runAll_of_faithful hc r.overrides r.targetPeriod lines h
    obtain ⟨hother,hafter'⟩ :=
      Backtest.runAll_of_faithful hc r.overrides r.targetPeriod lines h'
    rw [testBatches,testBatches]
    rcases ho : Backtest.runAll history r.overrides r.targetPeriod lines cache with ⟨one,after⟩
    rcases ho' : Backtest.runAll history r.overrides r.targetPeriod lines cache'
      with ⟨other,after'⟩
    rw [ho] at hone hafter
    rw [ho'] at hother hafter'
    simp only at hone hother
    rw [hone,hother]
    cases lines.mapM fun line => Backtest.attempt (r.overrides.applyLine line) history
        r.targetPeriod with
    | error e => rfl
    | ok more => exact congrArg _ (ih (tested ++ more) hafter hafter')

end VerifyRequest

/-! ## A period that comes twice -/

namespace Backtest

theorem attempt_pair (line : FormulaLine) (d d' : Draw) {raw raw' : ℤ}
    (hperiods : line.formula.periods = 2) (hraw : line.formula.rawValue d = .ok raw)
    (hraw' : line.formula.rawValue d' = .ok raw') : attempt line [d,d'] none =
      .ok (ofOutcomes line none
        [outcomeOf line.formula d raw,outcomeOf line.formula d' raw']) := by
  simp only [attempt,ofWindow,window,hperiods,pairs,Option.bind_none,List.mapM_cons,List.mapM_nil,
    outcomeFrom,if_true,if_false,Bool.false_eq_true,List.head?_nil,Option.getD_none,hraw,hraw']
  rfl

/-- With a memo a formula that is one name gets from the second draw of a period the value of the
first one. -/
theorem run_again (line : FormulaLine) (d d' : Draw) (e : Element) {capacity : ℕ} {raw : ℤ}
    (hcapacity : 0 < capacity)
    (hperiods : line.formula.periods = 2) (hp : d'.period = d.period)
    (hscan : Expression.Lexeme.scan (Expression.resolve d.special line.formula.expression) =
      [.name e])
    (hscan' : Expression.Lexeme.scan (Expression.resolve d'.special line.formula.expression) =
      [.name e])
    (hraw : line.formula.rawValue d = .ok raw) :
    (run line [d,d'] none (Memo.empty capacity)).1 =
      .ok (ofOutcomes line none
        [outcomeOf line.formula d raw,outcomeOf line.formula d' raw]) := by
  -- the first evaluation leaves its value under the period, where the second one finds it
  let memo : Element.Cache := Memo.empty capacity
  have henabled : memo.enabled = true := by simpa [memo,Memo.empty,Memo.enabled] using hcapacity
  have hconsistent : Element.Consistent [d] := .of_nodup (List.nodup_singleton _)
  have hanswers := hconsistent.answers (List.mem_singleton_self d)
  obtain ⟨hfirst,-⟩ := Expression.evaluate_of_answers hanswers line.formula.usesSorted
    line.formula.expression (Element.Cache.faithful_empty [d] capacity)
  have hagain := Expression.evaluate_again hp hscan hscan' line.formula.usesSorted henabled
  rw [Formula.rawValue] at hraw
  rw [hraw] at hfirst
  rcases hv : Expression.evaluate line.formula.expression d line.formula.usesSorted memo
    with ⟨value,after⟩
  rcases hv' : Expression.evaluate line.formula.expression d' line.formula.usesSorted after
    with ⟨value',last⟩
  rw [hv] at hagain hfirst
  rw [hv'] at hagain
  simp only at hagain hfirst
  subst hagain hfirst
  simp only [memo] at hv
  simp [run,window,hperiods,pairs,outcomesOf,hv,hv']

end Backtest

namespace VerifyRequest

/-- A request for one backtest over two draws of one period. -/
def tailTwice (special special' : ℤ) : VerifyRequest where
  formulas := [(Backtest.repeatedTail 2).rawText]
  history := [⟨1,[1,2,3,4,5,6,special],1,none,none⟩,⟨1,[1,2,3,4,5,6,special'],1,none,none⟩]
  targetPeriod := none
  offset := none
  periods := none
  left := none
  right := none

theorem toDraw_low (period special : ℤ) (h : 7 ≤ special ∧ special ≤ 49) :
    RawDraw.toDraw ⟨period,[1,2,3,4,5,6,special],1,none,none⟩ =
      .ok (Backtest.lowDraw period special h) :=
  History.make_eq_ok (Backtest.lowDraw period special h) none none

theorem toHistory_tailTwice {special special' : ℤ} (h : 7 ≤ special ∧ special ≤ 49)
    (h' : 7 ≤ special' ∧ special' ≤ 49) :
    RawDraw.toHistory (tailTwice special special').history =
      .ok [Backtest.lowDraw 1 special h,Backtest.lowDraw 1 special' h'] := by
  have hsorted : [Backtest.lowDraw 1 special h,Backtest.lowDraw 1 special' h'].Pairwise
      fun a b => decide (b.period ≤ a.period) = true := by
    simp [Backtest.lowDraw]
  simp only [RawDraw.toHistory,tailTwice,List.mapM_cons,List.mapM_nil,toDraw_low 1 special h,
    toDraw_low 1 special' h']
  exact congrArg Except.ok (List.mergeSort_of_pairwise hsorted)

theorem read_tailTwice (special special' : ℤ) :
    Batch.read (tailTwice special special').text = .ok ⟨[Backtest.repeatedTail 2],[]⟩ := by
  have hline : Batch.read (Text.joinLines [(Backtest.repeatedTail 2).rawText]) =
      .ok ⟨[Backtest.repeatedTail 2],[]⟩ := by decide +kernel
  exact hline

theorem runAll_tailTwice (special special' : ℤ) (draws : List Draw) (cache : Element.Cache) :
    Backtest.runAll draws (tailTwice special special').overrides none [Backtest.repeatedTail 2]
        cache =
      ((Backtest.run (Backtest.repeatedTail 2) draws none cache).1.map fun b => [b],
        (Backtest.run (Backtest.repeatedTail 2) draws none cache).2) := by
  have hline : (tailTwice special special').overrides.applyLine (Backtest.repeatedTail 2) =
    Backtest.repeatedTail 2 := rfl
  simp only [Backtest.runAll,hline]
  rcases Backtest.run (Backtest.repeatedTail 2) draws none cache with ⟨e | b,after⟩ <;> rfl

theorem answer_tailTwice {special special' : ℤ} {draws : List Draw} {b : Backtest}
    (engine : Engine)
    (hh : RawDraw.toHistory (tailTwice special special').history = .ok draws)
    (hb : (Backtest.run (Backtest.repeatedTail 2) draws none
      (Memo.empty engine.cacheSize.toNat)).1 = .ok b) :
    (tailTwice special special').answer engine = [.tested 1 1,.verified [b] []] := by
  have hread := read_tailTwice special special'
  have hall := runAll_tailTwice special special' draws (Memo.empty engine.cacheSize.toNat)
  have htarget : (tailTwice special special').targetPeriod = none := rfl
  rw [hb] at hall
  simp [answer,hh,hread,inGroups,testBatches,htarget,hall,Except.map]

/-! ## Every size -/

/-- Where the draws of one period agree, every size of the memo gives the same answer, both from
a worker and from the service, whose own history repeats no period. -/
theorem answer_cacheSize (r : VerifyRequest)
    (h : ∀ history, RawDraw.toHistory r.history = .ok history → Element.Consistent history)
    (size : ℤ) :
    (∀ engine : Engine, r.answer { engine with cacheSize := size } = r.answer engine) ∧
      ∀ s : Service.State,
        { s with engine := { s.engine with cacheSize := size } }.verify r = s.verify r := by
  constructor
  · intro engine
    unfold answer
    cases hh : RawDraw.toHistory r.history with
    | error e => rfl
    | ok history =>
      cases Batch.read r.text with
      | error e => rfl
      | ok batch =>
        exact testBatches_of_faithful (h history hh) batch _ []
          (Element.Cache.faithful_empty history _) (Element.Cache.faithful_empty history _)
  · intro s
    apply Service.State.withHistory_congr (s := s)
    intro history hh
    have hc := Service.State.consistent_historyFor h hh
    cases Batch.read r.text with
    | error e => rfl
    | ok batch =>
      simp only [Service.State.memo,Backtest.runAll_of_faithful hc r.overrides r.targetPeriod
        batch.formulas (Element.Cache.faithful_empty history _)]

/-- A draw that is given twice is answered the same with a memo and without. -/
theorem answer_sameTwice :
    (∀ history, RawDraw.toHistory (tailTwice 7 7).history = .ok history →
      Element.Consistent history) ∧
    ∃ b : Backtest, b.predictionAt? 1 = some (7,[7]) ∧
      (tailTwice 7 7).answer { Engine.default with cacheSize := 0 } =
        [.tested 1 1,.verified [b] []] ∧
      (tailTwice 7 7).answer Engine.default = [.tested 1 1,.verified [b] []] := by
  have hsame : ∀ history, RawDraw.toHistory (tailTwice 7 7).history = .ok history →
      Element.Consistent history := fun _ => RawDraw.consistent_toHistory (by decide)
  have hseven : (7 : ℤ) ≤ 7 ∧ (7 : ℤ) ≤ 49 := by decide
  have hraw : (Backtest.repeatedTail 2).formula.rawValue (Backtest.lowDraw 1 7 (by decide)) =
    .ok 7 := by decide +kernel
  have hrun := Backtest.attempt_pair (Backtest.repeatedTail 2) _ _ rfl hraw hraw
  rw [← Backtest.run_empty] at hrun
  have hanswer := answer_tailTwice { Engine.default with cacheSize := 0 }
    (toHistory_tailTwice hseven hseven) hrun
  obtain ⟨hworker,-⟩ := answer_cacheSize (tailTwice 7 7) hsame 0
  exact ⟨hsame,_,rfl,hanswer,by rw [← hworker,hanswer]⟩

theorem answer_otherTwice : ∃ b b' : Backtest,
    (tailTwice 7 8).answer { Engine.default with cacheSize := 0 } =
        [.tested 1 1,.verified [b] []] ∧
      (tailTwice 7 8).answer Engine.default = [.tested 1 1,.verified [b'] []] ∧
      b.predictionAt? 1 = some (8,[8]) ∧ b'.predictionAt? 1 = some (7,[7]) := by
  have hseven : (7 : ℤ) ≤ 7 ∧ (7 : ℤ) ≤ 49 := by decide
  have height : (7 : ℤ) ≤ 8 ∧ (8 : ℤ) ≤ 49 := by decide
  have hraw : (Backtest.repeatedTail 2).formula.rawValue (Backtest.lowDraw 1 7 (by decide)) =
    .ok 7 := by decide +kernel
  have hraw' : (Backtest.repeatedTail 2).formula.rawValue (Backtest.lowDraw 1 8 (by decide)) =
    .ok 8 := by decide +kernel
  have hhistory := toHistory_tailTwice hseven height
  have hnone := Backtest.attempt_pair (Backtest.repeatedTail 2) _ _ rfl hraw hraw'
  rw [← Backtest.run_empty] at hnone
  have hanswer := answer_tailTwice { Engine.default with cacheSize := 0 } hhistory hnone
  have hroom : 0 < Engine.default.cacheSize.toNat := by decide
  have hsome := Backtest.run_again (Backtest.repeatedTail 2) (Backtest.lowDraw 1 7 hseven)
    (Backtest.lowDraw 1 8 height) (.special .number) hroom rfl rfl rfl rfl hraw
  exact ⟨_,_,hanswer,answer_tailTwice Engine.default hhistory hsome,rfl,rfl⟩

end VerifyRequest

end DrawFormula
