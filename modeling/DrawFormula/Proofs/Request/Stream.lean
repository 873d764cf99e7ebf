import DrawFormula.Proofs.Request.Batches
import DrawFormula.Proofs.Search.Growth
import DrawFormula.Proofs.Worker.Answers

/-! # The messages of an answer

An answer is a number of messages on the progress and one last message, for whatever value it is.
The progress of a request for backtests follows from the size of the batches and the number of
formulas; each message of a search holds the formulas that it counts.
-/
namespace DrawFormula

/-! ## Checked values -/

namespace Checked
variable {α β : Type} {P : α → Prop} {Q : β → Prop}

/-- Whether a value, if it is taken, has a property. -/
def Sat (c : Checked α) (P : α → Prop) : Prop := ∀ a, c = .ok a → P a

theorem Sat.andThen {c : Checked β} {f : β → Checked α} (h : ∀ b, (f b).Sat P) :
    (c.andThen f).Sat P := by
  intro a ha
  cases c with
  | ok b => exact h b a ha
  | bad ps => cases ha

theorem Sat.within {low : ℤ} {high : Option ℤ} (i : ℤ) :
    (Checked.within low high i).Sat fun n => low ≤ n := by
  intro n hn
  unfold Checked.within at hn
  split at hn
  · cases hn
  · split at hn
    · cases hn
    · next hlow =>
      cases hn
      exact Int.not_lt.mp hlow

theorem Sat.under {c : Checked α} (h : c.Sat P) (step : Text) : (c.under step).Sat P := by
  intro a ha
  cases c with
  | ok b => exact h a ha
  | bad ps => cases ha

theorem Sat.field {fs : List (Text × Json)} {name : String} {default : α} {read : Json → Checked α}
    (hdefault : P default) (hread : ∀ v, (read v).Sat P) :
    (Checked.field fs name default read).Sat P := by
  unfold Checked.field
  split
  · exact (hread _).under _
  · intro a ha
    cases ha
    exact hdefault

theorem Sat.map {f : β → α} {c : Checked β} (h : c.Sat fun b => P (f b)) : (c.map f).Sat P := by
  intro a ha
  cases c with
  | ok b =>
    cases ha
    exact h b rfl
  | bad ps => cases ha

theorem Sat.pure {a : α} (h : P a) : (Pure.pure a : Checked α).Sat P := by
  intro a' ha
  cases ha
  exact h

theorem Sat.seq {cf : Checked (β → α)} {c : Checked β} (hf : cf.Sat fun f => ∀ b, Q b → P (f b))
    (hc : c.Sat Q) : (cf <*> c).Sat P := by
  intro a ha
  cases cf with
  | bad ps => cases c <;> cases ha
  | ok f =>
    cases c with
    | bad ps => cases ha
    | ok b =>
      cases ha
      exact hf f rfl b (hc b rfl)

theorem Sat.seq_any {cf : Checked (β → α)} {c : Checked β} (hf : cf.Sat fun f => ∀ b, P (f b)) :
    (cf <*> c).Sat P :=
  Sat.seq (fun f hok b _ => hf f hok b) fun _ _ => trivial

theorem Sat.seqRight {c : Checked β} {d : Checked α} (h : d.Sat P) : (c *> d).Sat P := by
  intro a ha
  cases c <;> cases d <;> cases ha
  exact h _ rfl

end Checked

theorem Engine.clampBatch_pos (n : ℤ) : 0 < Engine.clampBatch n := by
  unfold clampBatch leastBatch greatestBatch
  omega

namespace Request

theorem checkSearch_sat (kind : ProblemKind) (v : Json) :
    (checkSearch kind v).Sat fun r => 1 ≤ r.maxCount := by
  refine .andThen fun fs => .seqRight ?_
  have hcount : (Checked.field fs "max_count" 20 (Checked.intWithin 1 (some 1000))).Sat
      fun n => 1 ≤ n :=
    .field (by decide) fun _ => .andThen .within
  -- of all the parts only the number of formulas matters
  refine .seq_any (.seq_any (.seq_any (.seq_any (.seq_any (.seq_any (.seq_any (.seq ?_ hcount)))))))
  exact .seq_any (.seq_any (.pure fun _ _ _ hn _ _ _ _ _ _ _ => hn))

/-- A search that is asked for by a value is asked for some formulas. -/
theorem check_sat (v : Json) : (check v).Sat fun r => ∀ q, r = .search q → 1 ≤ q.maxCount := by
  refine .andThen fun fs => ?_
  have hproblem : ∀ kind, (Checked.problem kind : Checked Request).Sat
      fun r => ∀ q, r = .search q → 1 ≤ q.maxCount := by
    intro kind r hr
    cases hr
  split
  · exact hproblem _
  · split
    · refine .under (.map ?_) _
      intro r _ q hq
      cases hq
    · split
      · refine .under (.map ?_) _
        intro r hr q hq
        cases hq
        exact checkSearch_sat .notRecord v r hr
      · exact hproblem _
  · exact hproblem _

/-! ## Streams of messages -/

/-- What the messages that answer a request look like, with batches of a size. -/
inductive Stream (size : ℕ) : Request → List Message → Prop where
  | verified {r : VerifyRequest} {batch : Batch} {results : List Backtest} :
    Batch.read r.text = .ok batch → results.length = batch.formulas.length →
    Stream size (.verify r) (VerifyRequest.progressOver size batch.formulas.length ++
      [.verified results batch.diagnostics])
  | found {r : SearchRequest} {ps : List Search.Progress} {results : List Search.Found} :
    (∀ p ∈ ps, p.found = p.results.length ∧ p.current ≤ p.total) →
    (1 ≤ r.maxCount → results.length ≤ r.maxCount) →
    Stream size (.search r) (ps.map .searching ++ [.found results])
  | failed {r : Request} {progress : List Message} {reason : Text} :
    (∀ m ∈ progress, m.IsProgress) →
    Stream size r (progress ++ [.failed reason])

theorem Stream.failedAtOnce {size : ℕ} (r : Request) (reason : Text) :
    Stream size r [.failed reason] := by
  have hnone : ∀ m ∈ ([] : List Message), m.IsProgress := by simp
  exact .failed hnone

theorem stream_verify (engine : Engine) (h : 0 < engine.batchSize) (r : VerifyRequest) :
    Stream engine.batchSize (.verify r) (r.answer engine) := by
  unfold VerifyRequest.answer
  cases RawDraw.toHistory r.history with
  | error e => exact .failedAtOnce _ _
  | ok history =>
    cases hread : Batch.read r.text with
    | error e => exact .failedAtOnce _ _
    | ok batch =>
      have hflat := flatten_inGroups (engine.batchSize - 1) batch.formulas
      have hprogress := VerifyRequest.progressAfter_batches h batch.formulas
      dsimp only
      rcases hrun : Backtest.runAll history r.overrides r.targetPeriod batch.formulas
        (Memo.empty engine.cacheSize.toNat) with ⟨e | results,after⟩
      · rw [← hflat] at hrun
        obtain ⟨before,hbefore,hanswer⟩ := r.testBatches_of_error history batch _ [] hrun
        rw [hanswer]
        exact .failed fun m hm => VerifyRequest.isProgress_of_mem (hbefore.subset hm)
      · have hlength := Backtest.threaded_runAll.length_eq hrun
        rw [← hflat] at hrun
        rw [r.testBatches_of_ok history batch _ [] hrun,List.length_nil,hprogress,List.nil_append]
        exact .verified hread hlength

theorem stream_search (engine : Engine) (r : SearchRequest) :
    Stream engine.batchSize (.search r) (r.answer engine) := by
  unfold SearchRequest.answer
  cases RawDraw.toHistory r.history with
  | error e => exact .failedAtOnce _ _
  | ok history =>
    dsimp only
    rcases hrun : Search.run (Search.Setting.of engine history r.params fun _ => false)
      (.initial (Search.generator engine r.params) engine.cacheSize.toNat) with ⟨e | found,s⟩
    · refine .failed fun m hm => ?_
      obtain ⟨p,-,rfl⟩ := List.mem_map.mp hm
      rfl
    · have hlength : found.length ≤ r.params.maxCount := Search.length_run hrun
      have hcount : 1 ≤ r.maxCount → (r.params.maxCount : ℤ) = r.maxCount := by
        intro hpos
        change ((max 1 r.maxCount.toNat : ℕ) : ℤ) = r.maxCount
        omega
      refine .found (Search.sound_run hrun) fun hpos => ?_
      rw [← hcount hpos]
      exact_mod_cast hlength

end Request

end DrawFormula
