import DrawFormula.Request.Basic
import DrawFormula.Search.Run
import DrawFormula.Worker.Message

/-! # Answers to requests

Formulas are tested batch by batch with one memo of element values, and a message follows each
batch.  The messages of a search are those on its progress.  Every answer ends with one last
message, whatever the request.
-/
namespace DrawFormula

/-- Why a request has no results. -/
inductive RequestFailure where
  /-- The request is not well formed. -/
  | invalid (problems : List Problem)
  /-- The history holds values that are no draw. -/
  | draw (e : DrawError)
  /-- A number has too many digits. -/
  | numeral (e : NumeralError)
deriving Repr, DecidableEq

/-- The wording of a failure, with its kind in front. -/
def RequestFailure.reason : RequestFailure → String
  | invalid _ => "ValidationError"
  | draw e => "HistoryError: " ++ e.message
  | numeral e => "ValueError: " ++ e.message

/-- The last message of a request that failed. -/
def RequestFailure.message (f : RequestFailure) : Message := .failed f.reason.toList

/-- The items in groups of `n + 1`, the last group with what is left. -/
def inGroups {α : Type} (n : Nat) : List α → List (List α)
  | [] => []
  | x :: rest => (x :: rest.take n) :: inGroups n (rest.drop n)
termination_by xs => xs.length
decreasing_by simp only [List.length_drop, List.length_cons]; omega

namespace VerifyRequest

/-- What the request puts in place of the formulas' settings. -/
def overrides (r : VerifyRequest) : Overrides := ⟨r.offset, r.periods, r.left, r.right⟩

/-- The text of all formulas, one text after the other. -/
def text (r : VerifyRequest) : Text := Text.joinLines r.formulas

/-- Tests the batches and sends a message after each. -/
def testBatches (r : VerifyRequest) (history : List Draw) (batch : Batch) :
    List (List FormulaLine) → List Backtest → Element.Cache → List Message
  | [], tested, _ => [.verified tested batch.diagnostics]
  | formulas :: rest, tested, cache =>
    match Backtest.runAll history r.overrides r.targetPeriod formulas cache with
    | (.error e, _) => [(RequestFailure.numeral e).message]
    | (.ok more, cache) =>
      .tested (tested ++ more).length batch.formulas.length ::
        testBatches r history batch rest (tested ++ more) cache

/-- The answer to a request for backtests. -/
def answer (engine : Engine) (r : VerifyRequest) : List Message :=
  match RawDraw.toHistory r.history with
  | .error e => [(RequestFailure.draw e).message]
  | .ok history =>
    match Batch.read r.text with
    | .error e => [(RequestFailure.numeral e).message]
    | .ok batch =>
      testBatches r history batch (inGroups (engine.batchSize - 1) batch.formulas) []
        (Memo.empty engine.cacheSize.toNat)

end VerifyRequest

namespace SearchRequest

/-- The parameters of the search. -/
def params (r : SearchRequest) : Search.Params :=
  .make r.target r.maxCount r.strategy r.resultTypes r.offset r.periods r.left r.right
    (r.seed.map Text.ofInt) none none

/-- The answer to a request for a search. -/
def answer (engine : Engine) (r : SearchRequest) : List Message :=
  match RawDraw.toHistory r.history with
  | .error e => [(RequestFailure.draw e).message]
  | .ok history =>
    let p := r.params
    let setting := Search.Setting.of engine history p fun _ => false
    match Search.run setting (.initial (Search.generator engine p) engine.cacheSize.toNat) with
    | (.ok found, s) => s.progress.map .searching ++ [.found found]
    | (.error e, s) => s.progress.map .searching ++ [(RequestFailure.numeral e).message]

end SearchRequest

/-- The answer to a request. -/
def Request.answer (engine : Engine) : Request → List Message
  | .verify r => r.answer engine
  | .search r => r.answer engine

/-- The answer to a value that may be no request. -/
def Request.answerJson (engine : Engine) (v : Json) : List Message :=
  match Request.check v with
  | .ok r => r.answer engine
  | .bad problems => [(RequestFailure.invalid problems).message]

end DrawFormula
