import DrawFormula.Favorites
import DrawFormula.History.Change
import DrawFormula.Report
import DrawFormula.Service.Body
import DrawFormula.Service.Response
import DrawFormula.Worker.Answer

/-! # The service

The service holds a history, favorites and settings.  Whenever the listeners of the history are
told of a change, its table is saved.  Backtests and searches use the history that comes with the
call, or the service's own one if none comes.
-/
namespace DrawFormula.Service

/-- What the service holds. -/
structure State where
  engine : Engine
  history : History.Store
  /-- The table of the history as it was last saved. -/
  saved : Option Text
  favorites : Favorites.Collection
  settings : Settings

/-- The answer to a call and the state after it. -/
abbrev Answer := Response × State

namespace State

/-- A service that holds nothing yet. -/
def empty (engine : Engine) : State :=
  ⟨engine, (History.Store.ofList []).subscribe, none, .ofEntries [], .default⟩

/-- The state with another history, which is saved. -/
def setHistory (s : State) (history : History.Store) : State :=
  { s with history := history, saved := some (History.tableText history.toList) }

/-- Merges draws into the history. -/
def merge (s : State) (draws : List Draw) : State := s.setHistory (s.history.merge draws)

/-- A memo of element values for one call. -/
def memo (s : State) : Element.Cache := Memo.empty s.engine.cacheSize.toNat

/-! ## Formulas -/

/-- The JSON form of a formula's line with the formula's canonical text. -/
def formulaJson (l : FormulaLine) : Json :=
  match l.toJson with
  | .obj fields => .obj (fields ++ [("text".toList, .str l.formula.text)])
  | v => v

/-- The JSON form of a diagnostic with its line. -/
def diagnosticJson (d : Diagnostic) : Json := .record (d.heading ++ [("line", .int d.line)])

/-- Reads a batch of formulas. -/
def readFormulas (text : Text) : Response :=
  match Batch.read text with
  | .error _ => .failed
  | .ok b => .value (.record [("formulas", .arr (b.formulas.map formulaJson)),
      ("errors", .arr (b.diagnostics.map diagnosticJson))])

/-- The history that comes with a call, or the service's own one. -/
def historyFor (s : State) (given : List RawDraw) : Except DrawError (List Draw) :=
  if given.isEmpty then .ok s.history.toList else RawDraw.toHistory given

/-- Why a call without a history is refused. -/
def noHistory : Text := "no draw history".toList

/-- Goes on with the history for a call, if there are draws in it. -/
def withHistory (s : State) (given : List RawDraw) (f : List Draw → Response) : Response :=
  match s.historyFor given with
  | .error e => .refused e.message.toList
  | .ok [] => .refused noHistory
  | .ok draws => f draws

/-- Tests the formulas of a request. -/
def verify (s : State) (r : VerifyRequest) : Response :=
  s.withHistory r.history fun history =>
    match Batch.read r.text with
    | .error _ => .failed
    | .ok b =>
      match (Backtest.runAll history r.overrides r.targetPeriod b.formulas s.memo).1 with
      | .error _ => .failed
      | .ok tested => .value (.record [("results", .arr (tested.map Backtest.toJson)),
          ("summary", .arr ((Report.summaryLines tested).map .str)),
          ("errors", .arr (b.diagnostics.map diagnosticJson))])

/-- Searches for formulas. -/
def search (s : State) (r : SearchRequest) : Response :=
  s.withHistory r.history fun history =>
    .messages ({ r with history := history.map RawDraw.ofDraw }.answer s.engine)

/-! ## The history -/

/-- The newest draws of the history, at most `limit` of them. -/
def draws (s : State) (limit : Nat) : Response :=
  .value (.arr ((s.history.toList.take limit).map Draw.toJson))

/-- The newest draw of the history. -/
def latestDraw (s : State) : Response :=
  match s.history.latest? with
  | none => .notFound noHistory
  | some d => .value d.toJson

/-- Merges the draws on the lines of a text, if there is one; how many periods are new. -/
def importText (s : State) (r : Import) : Nat × State :=
  match r.textDraws? with
  | none => (0, s)
  | some draws => (s.history.growth draws, s.merge draws)

/-- The answer to an import. -/
def imported (added : Nat) (s : State) : Answer :=
  (.value (.record [("added", .int added), ("total", .int s.history.size)]), s)

/-- Imports a text and then draws; the text stays imported even if the draws are refused. -/
def importHistory (s : State) (r : Import) : Answer :=
  let (added, read) := s.importText r
  if r.draws.isEmpty then read.imported added
  else
    match RawDraw.toHistory r.draws with
    | .error e => (.refused e.message.toList, read)
    | .ok draws => (read.merge draws).imported (added + read.history.growth draws)

/-! ## Favorites -/

/-- The answer of an operation on favorites. -/
def onFavorites {α : Type} (s : State) (r : Except Favorites.Error α × Favorites.Collection)
    (f : α → Response) : Answer :=
  let s := { s with favorites := r.2 }
  match r.1 with
  | .ok a => (f a, s)
  | .error _ => (.failed, s)

/-- The groups of favorites. -/
def groups (clock : Favorites.Clock) (s : State) : Answer :=
  let c := s.favorites.opened clock
  (.value c.toJson, { s with favorites := c })

/-- Adds a group with a name that is not blank. -/
def addGroup (clock : Favorites.Clock) (s : State) (name : Text) : Answer :=
  match Text.strip name with
  | [] => (.refused "group name is empty".toList, s)
  | name => s.onFavorites (s.favorites.addGroup clock (.str name)) fun g =>
      .value (Favorites.Entry.group g).toJson

/-- The answer where there is no group of an identifier. -/
def noGroup : Response := .notFound "group not found".toList

/-- Deletes a group. -/
def deleteGroup (clock : Favorites.Clock) (s : State) (id : Text) : Answer :=
  s.onFavorites (s.favorites.deleteGroup clock id) fun deleted =>
    if deleted then .value (.record [("deleted", .str id)]) else noGroup

/-- Adds a formula to a group unless it is there. -/
def addFormula (clock : Favorites.Clock) (s : State) (id formula : Text) : Answer :=
  let formula := Text.strip formula
  match Formula.read formula with
  | .error (.numeral _) => (.failed, s)
  | .error (.fault _) => (.refused ("not a valid formula: ".toList ++ formula), s)
  | .ok _ =>
    let (added, c) := s.favorites.addFormula clock id formula
    s.onFavorites (added, c) fun added =>
      match added, Favorites.split id c.entries with
      | false, .ok none => noGroup
      | _, _ => .value (.record [("added", .bool added)])

/-- Removes a formula from a group. -/
def removeFormula (clock : Favorites.Clock) (s : State) (id formula : Text) : Answer :=
  s.onFavorites (s.favorites.removeFormula clock id (Text.strip formula)) fun removed =>
    .value (.record [("removed", .bool removed)])

/-! ## Settings -/

/-- The settings. -/
def showSettings (s : State) : Response := .value s.settings.toJson

/-- Changes settings, unless a change is not allowed. -/
def changeSettings (s : State) (changes : Changes) : Answer :=
  if changes.areAllowed then
    let s := { s with settings := s.settings.update changes.toFields }
    (s.showSettings, s)
  else (.refused "periods must be positive".toList, s)

end State

end DrawFormula.Service
