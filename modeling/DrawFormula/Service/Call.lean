import DrawFormula.Service.State
import DrawFormula.Service.Target
import DrawFormula.Text.Upper

/-! # Calls of the service

A call has a method, a target and perhaps a body.  The target's path names a resource; slashes at
its end do not count.  Whatever the method needs from the target and the body is checked before
anything is done.
-/
namespace DrawFormula.Service

/-- A call. -/
structure Call where
  method : Text
  target : Target
  body : Option Json

/-- What a path names. -/
inductive Resource where
  | formulas
  | verify
  | search
  | history
  | latestDraw
  | historyImport
  | favorites
  | groups
  | group (id : Text)
  | groupFormulas (id : Text)
  | settings
deriving Repr, DecidableEq

namespace Resource

/-- The paths that name no single group. -/
def paths : List (List String × Resource) :=
  [(["formulas", "parse"], formulas), (["verify"], verify), (["search"], search),
    (["history"], history), (["history", "latest"], latestDraw),
    (["history", "import"], historyImport), (["favorites"], favorites),
    (["favorites", "groups"], groups), (["settings"], settings)]

/-- The resource that the segments of a path name. -/
def ofSegments? (segments : List Text) : Option Resource :=
  match paths.find? fun p => p.1.map String.toList = segments with
  | some p => some p.2
  | none =>
    match segments with
    | [a, b, id] =>
      if a = "favorites".toList ∧ b = "groups".toList ∧ id ≠ [] then some (group id) else none
    | [a, b, id, c] =>
      if a = "favorites".toList ∧ b = "groups".toList ∧ id ≠ [] ∧ c = "formulas".toList then
        some (groupFormulas id)
      else none
    | _ => none

/-- The resource that a target names. -/
def ofTarget? (t : Target) : Option Resource :=
  match ofSegments? t.segments with
  | some r => some r
  | none => ofSegments? (Target.trimmed t.segments)

end Resource

/-- What a call asks for. -/
inductive Method where
  | get | post | put | delete
deriving Repr, DecidableEq

/-- The method that a word names. -/
def Method.ofName? (word : Text) : Option Method :=
  match String.ofList (Text.upper word) with
  | "GET" => some get
  | "POST" => some post
  | "PUT" => some put
  | "DELETE" => some delete
  | _ => none

namespace Call

/-- Checks the body, which has to be there. -/
def checkBody {α : Type} (c : Call) (check : Json → Checked α) : Checked α :=
  (match c.body with
    | none | some .null => Checked.problem .missing
    | some v => check v).under "body".toList

/-- Checks a parameter of the target. -/
def checkParameter {α : Type} (c : Call) (name : String) (check : Option Json → Checked α) :
    Checked α :=
  ((check ((c.target.parameter? name).map .str)).under name.toList).under "query".toList

/-- A body with a text in a field. -/
def textBody (c : Call) (name : String) : Checked Text :=
  c.checkBody fun v => (Checked.fields .noAttributes v).andThen fun fs =>
    Checked.required fs name Checked.text

/-- How many draws are asked for. -/
def limit (c : Call) : Checked Nat :=
  c.checkParameter "limit" fun
    | none => .ok 100
    | some v => (Checked.intWithin 1 (some 5000) v).map Int.toNat

/-- Goes on with a value that is well formed. -/
def withChecked {α : Type} (s : State) (c : Checked α) (f : α → Answer) : Answer :=
  match c with
  | .ok a => f a
  | .bad problems => (.invalid problems, s)

/-- The answer to a call on a resource. -/
def answerOn (clock : Favorites.Clock) (s : State) (c : Call) :
    Resource → Option Method → Answer
  | .formulas, some .post => withChecked s (c.textBody "text") fun t => (State.readFormulas t, s)
  | .verify, some .post =>
    withChecked s (c.checkBody (Request.checkVerify .noAttributes)) fun r => (s.verify r, s)
  | .search, some .post =>
    withChecked s (c.checkBody (Request.checkSearch .noAttributes)) fun r => (s.search r, s)
  | .history, some .get => withChecked s c.limit fun n => (s.draws n, s)
  | .latestDraw, some .get => (s.latestDraw, s)
  | .historyImport, some .post => withChecked s (c.checkBody Import.check) s.importHistory
  | .favorites, some .get => s.groups clock
  | .groups, some .post => withChecked s (c.textBody "name") (s.addGroup clock)
  | .group id, some .delete => s.deleteGroup clock id
  | .groupFormulas id, some .post => withChecked s (c.textBody "formula") (s.addFormula clock id)
  | .groupFormulas id, some .delete =>
    withChecked s (c.checkParameter "formula" fun
      | none => Checked.problem .missing
      | some v => Checked.text v) (s.removeFormula clock id)
  | .settings, some .get => (s.showSettings, s)
  | .settings, some .put => withChecked s (c.checkBody Changes.check) s.changeSettings
  | _, _ => (.wrongMethod, s)

/-- The answer to a call. -/
def answer (clock : Favorites.Clock) (s : State) (c : Call) : Answer :=
  match Resource.ofTarget? c.target with
  | none => (.notFound "Not Found".toList, s)
  | some r => answerOn clock s c r (Method.ofName? c.method)

end Call

end DrawFormula.Service
