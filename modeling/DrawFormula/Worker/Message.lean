import DrawFormula.Record

/-! # Messages of workers

A worker answers a request by messages on its progress and one last message, which holds the
results or says why there are none.
-/
namespace DrawFormula

/-- A message of a worker. -/
inductive Message where
  /-- So many of all formulas are tested. -/
  | tested (current total : Nat)
  /-- A search has come so far. -/
  | searching (p : Search.Progress)
  /-- All formulas are tested. -/
  | verified (results : List Backtest) (diagnostics : List Diagnostic)
  /-- A search has ended. -/
  | found (results : List Search.Found)
  /-- The request failed. -/
  | failed (reason : Text)

/-- Messages of which some are the last ones of a task, with a last one for each failure. -/
class Mail (μ : Type) where
  isLast : μ → Bool
  failure : Text → μ
  isLast_failure : ∀ reason, isLast (failure reason) = true

namespace Message

/-- Whether the message is the last one of its task. -/
def isLast : Message → Bool
  | verified .. | found _ | failed _ => true
  | _ => false

instance : Mail Message := ⟨isLast, failed, fun _ => rfl⟩

/-- The JSON form of a failure. -/
def failureJson (reason : Text) : Json :=
  .record [("kind", .lit "error"), ("message", .str reason)]

/-- The JSON form. -/
def toJson : Message → Json
  | tested current total => .record [("kind", .lit "progress"), ("current", .int current),
      ("total", .int total), ("found", .null), ("results", .null)]
  | searching p => .record [("kind", .lit "progress"), ("current", .int p.current),
      ("total", .int p.total), ("found", .int p.found),
      ("results", .arr (p.results.map Search.Found.toJson))]
  | verified results diagnostics => .record [("kind", .lit "complete"),
      ("results", .arr (results.map Backtest.toJson)),
      ("errors", .arr (diagnostics.map Diagnostic.toJson))]
  | found results => .record [("kind", .lit "complete"),
      ("results", .arr (results.map Search.Found.toJson)), ("errors", .arr [])]
  | failed reason => failureJson reason

/-- Whether a message in JSON is the last one of its task. -/
def isLastJson (m : Json) : Bool :=
  match (m.field? "kind").bind Json.str? with
  | some kind => kind = "complete".toList || kind = "error".toList
  | none => false

instance : Mail Json := ⟨isLastJson, failureJson, fun _ => rfl⟩

end Message

end DrawFormula
