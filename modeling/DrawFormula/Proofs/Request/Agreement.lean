import DrawFormula.Proofs.Request.Batches
import DrawFormula.Proofs.Request.CacheSize

/-! # Workers and the service

A worker tests the formulas of a request in batches, the service in one pass. Both have one history
for a request that brings its own, so that they come to the same backtests and the same diagnostics,
whatever the size of the batches and of the memo, also where a period comes up twice.
-/
namespace DrawFormula

theorem RawDraw.length_toHistory {rs : List RawDraw} {history : List Draw}
    (h : toHistory rs = .ok history) : history.length = rs.length := by
  unfold toHistory at h
  cases hm : rs.mapM toDraw with
  | error e =>
    rw [hm] at h
    cases h
  | ok draws =>
    rw [hm] at h
    cases h
    have hlength := congrArg List.length (Backtest.mapM_eq_ok_iff.mp hm)
    rw [List.length_mergeSort,← List.length_map Except.ok,← hlength,List.length_map]

/-- Whether two records have the same values in some fields. -/
def Json.SameFields (names : List String) (v w : Json) : Prop :=
  ∀ name ∈ names, ∃ part, v.field? name = some part ∧ w.field? name = some part

theorem Diagnostic.sameFields (d : Diagnostic) :
    Json.SameFields ["type","message","line"] (Service.State.diagnosticJson d) d.toJson := by
  intro name hname
  simp only [List.mem_cons,List.not_mem_nil,or_false] at hname
  rcases hname with rfl | rfl | rfl <;> cases d <;> exact ⟨_,rfl,rfl⟩

namespace Service.State
variable (s : State) (r : VerifyRequest)

/-- How the service answers a request that brings a history. -/
theorem verify_of_history (h : r.history ≠ []) : s.verify r =
    match RawDraw.toHistory r.history with
    | .error e => .refused e.message.toList
    | .ok history =>
      match Batch.read r.text with
      | .error _ => .failed
      | .ok batch =>
        match (Backtest.runAll history r.overrides r.targetPeriod batch.formulas s.memo).1 with
        | .error _ => .failed
        | .ok tested => .value (.record [("results",.arr (tested.map Backtest.toJson)),
            ("summary",.arr ((Report.summaryLines tested).map .str)),
            ("errors",.arr (batch.diagnostics.map diagnosticJson))]) := by
  have hgiven : r.history.isEmpty = false := by simpa using h
  unfold verify withHistory historyFor
  rw [hgiven]
  cases hh : RawDraw.toHistory r.history with
  | error e => rfl
  | ok history =>
    cases history with
    | nil =>
      have hlength := RawDraw.length_toHistory hh
      exact absurd (List.length_eq_zero_iff.mp hlength.symm) h
    | cons d rest => rfl

/-- A worker answers a request with the same results and diagnostics as the service, and refuses a
history that the service refuses, in batches of every size. -/
theorem verify_answer (h : r.history ≠ []) :
    ((s.verify r).status = 200 → ∃ results errors errors' : List Json,
      (s.verify r).body.field? "results" = some (.arr results) ∧
      (s.verify r).body.field? "errors" = some (.arr errors) ∧
      List.Forall₂ (Json.SameFields ["type","message","line"]) errors errors' ∧
      ∀ size : ℕ, ∃ (progress : List Message) (last : Message),
        r.answer { s.engine with batchSize := size } = progress ++ [last] ∧
        (∀ m ∈ progress, m.IsProgress) ∧
        last.toJson.field? "kind" = some (.lit "complete") ∧
        last.toJson.field? "results" = some (.arr results) ∧
        last.toJson.field? "errors" = some (.arr errors')) ∧
    ((s.verify r).status = 400 → ∃ reason, ∀ size : ℕ,
      r.answer { s.engine with batchSize := size } = [.failed reason]) := by
  rw [verify_of_history s r h]
  unfold VerifyRequest.answer
  cases RawDraw.toHistory r.history with
  | error e => exact ⟨nofun,fun _ => ⟨_,fun _ => rfl⟩⟩
  | ok history =>
    cases Batch.read r.text with
    | error e => exact ⟨nofun,nofun⟩
    | ok batch =>
      dsimp only
      rcases hrun : Backtest.runAll history r.overrides r.targetPeriod batch.formulas s.memo with
        ⟨e | tested,after⟩
      · exact ⟨nofun,nofun⟩
      · refine ⟨fun _ => ⟨_,_,batch.diagnostics.map Diagnostic.toJson,rfl,rfl,?_,?_⟩,nofun⟩
        · rw [List.forall₂_map_left_iff,List.forall₂_map_right_iff,List.forall₂_same]
          exact fun d _ => d.sameFields
        · intro size
          rw [← flatten_inGroups (size - 1) batch.formulas] at hrun
          have hanswer := r.testBatches_of_ok history batch _ [] hrun
          exact ⟨_,_,hanswer,fun m hm => VerifyRequest.isProgress_of_mem hm,rfl,rfl,rfl⟩

theorem verify_tailTwice {special special' : ℤ} {draws : List Draw} {b : Backtest}
    (hh : RawDraw.toHistory (VerifyRequest.tailTwice special special').history = .ok draws)
    (hb : (Backtest.run (Backtest.repeatedTail 2) draws none s.memo).1 = .ok b) :
    ∃ summary, s.verify (VerifyRequest.tailTwice special special') =
      .value (.record [("results",.arr [b.toJson]),("summary",summary),("errors",.arr [])]) := by
  have hall := congrArg Prod.fst (VerifyRequest.runAll_tailTwice special special' draws s.memo)
  have htarget : (VerifyRequest.tailTwice special special').targetPeriod = none := rfl
  simp only [hb,Except.map] at hall
  rw [verify_of_history s (VerifyRequest.tailTwice special special') (List.cons_ne_nil _ _)]
  simp only [hh,VerifyRequest.read_tailTwice,htarget,hall]
  exact ⟨_,rfl⟩

/-- In batches and in one pass the second draw of a period is given the memo's value of the first. -/
theorem verify_answer_tailTwice :
    let s := empty Engine.default
    let r := VerifyRequest.tailTwice 7 8
    r.history ≠ [] ∧ (s.verify r).status = 200 ∧ ∃ b : Backtest,
      b.predictionAt? 1 = some (7,[7]) ∧
      (s.verify r).body.field? "results" = some (.arr [b.toJson]) ∧
      ∀ size : ℕ, ∃ (progress : List Message) (last : Message),
        r.answer { s.engine with batchSize := size } = progress ++ [last] ∧
        last.toJson.field? "results" = some (.arr [b.toJson]) := by
  intro s r
  have hgiven : r.history ≠ [] := List.cons_ne_nil _ _
  have hseven : (7 : ℤ) ≤ 7 ∧ (7 : ℤ) ≤ 49 := by decide
  have height : (7 : ℤ) ≤ 8 ∧ (8 : ℤ) ≤ 49 := by decide
  have hraw : (Backtest.repeatedTail 2).formula.rawValue (Backtest.lowDraw 1 7 (by decide)) =
    .ok 7 := by decide +kernel
  have hroom : 0 < s.engine.cacheSize.toNat := by decide
  have hrun := Backtest.run_again (Backtest.repeatedTail 2) (Backtest.lowDraw 1 7 hseven)
    (Backtest.lowDraw 1 8 height) (.special .number) hroom rfl rfl rfl rfl hraw
  obtain ⟨summary,hverify⟩ :=
    s.verify_tailTwice (VerifyRequest.toHistory_tailTwice hseven height) hrun
  have hstatus : (s.verify r).status = 200 := congrArg Response.status hverify
  obtain ⟨hagrees,-⟩ := verify_answer s r hgiven
  obtain ⟨results,errors,errors',hresults,-,-,hanswers⟩ := hagrees hstatus
  have hbody := hresults
  rw [hverify] at hbody
  cases hbody
  refine ⟨hgiven,hstatus,_,rfl,hresults,fun size => ?_⟩
  obtain ⟨progress,last,hanswer,-,-,hlast,-⟩ := hanswers size
  exact ⟨progress,last,hanswer,hlast⟩

end Service.State

end DrawFormula
