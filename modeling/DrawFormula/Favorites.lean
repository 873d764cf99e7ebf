import DrawFormula.Json.Access
import DrawFormula.Json.Integer
import DrawFormula.Json.Reader

/-! # Favorite formulas

Favorites are groups of formulas.  A collection without groups is given a default group whenever
it is looked at.  A new group is named after the time of its creation, moved on until no group has
that name.  The entries of a file that are no groups stay as they are.  An operation that has to look into
one of them takes what it finds there for formulas as far as it can, and fails otherwise.
-/
namespace DrawFormula.Favorites

/-- A group of formulas. -/
structure Group where
  id : Text
  formulas : List Text
  /-- The other fields, among them the name and the time of creation. -/
  others : List (Text × Json)

/-- An entry of a file. -/
inductive Entry where
  | group (g : Group)
  /-- An entry that is no group. -/
  | foreign (v : Json)

/-- Why an operation fails. -/
inductive Error where
  /-- A field is missing. -/
  | missing (name : String)
  /-- A value has the wrong type. -/
  | wrongType
  /-- Formulas are given, but nothing can be added to them. -/
  | noList
deriving Repr, DecidableEq

/-- The readings of a clock in milliseconds, one after the other. -/
abbrev Clock := Nat → Int

/-- A collection of favorites, and how often the clock was read. -/
structure Collection where
  entries : List Entry
  readings : Nat

/-- The texts of an array of texts. -/
def texts? : Json → Option (List Text)
  | .arr items => items.mapM Json.str?
  | _ => none

namespace Entry

/-- The entry of a JSON value. -/
def ofJson (v : Json) : Entry :=
  match (v.field? "id").bind Json.str?, (v.field? "formulas").bind texts? with
  | some id, some formulas =>
    .group ⟨id, formulas, (v.fields?.getD []).filter fun f =>
      f.1 ≠ "id".toList ∧ f.1 ≠ "formulas".toList⟩
  | _, _ => .foreign v

/-- The JSON form of an entry. -/
def toJson : Entry → Json
  | .group g => .obj (("id".toList, .str g.id) ::
      ("formulas".toList, .arr (g.formulas.map .str)) :: g.others)
  | .foreign v => v

/-- Whether an entry has an identifier. -/
def hasId (id : Text) : Entry → Except Error Bool
  | .group g => .ok (g.id = id)
  | .foreign (.obj fields) =>
    match (Json.obj fields).field? "id" with
    | some (.str other) => .ok (other = id)
    | some _ => .ok false
    | none => .error (.missing "id")
  | .foreign _ => .error .wrongType

end Entry

namespace Foreign

/-- Whether a formula is among what an entry that is no group has for formulas: the items of a list,
the parts of a text or the names of fields. -/
def holds (formula : Text) : Json → Except Error Bool
  | .arr items => .ok (items.any fun v => v.str? = some formula)
  | .str t => .ok (Text.contains formula t)
  | .obj fields => .ok (fields.any fun f => f.1 = formula)
  | _ => .error .wrongType

/-- The formulas with one more; none if it is there. -/
def add (formula : Text) (v : Json) : Except Error (Option Json) := do
  if ← holds formula v then return none
  match v with
  | .arr items => return some (.arr (items ++ [.str formula]))
  | _ => throw .noList

/-- The formulas without one; none if it is not there. -/
def remove (formula : Text) (v : Json) : Except Error (Option Json) := do
  if ← holds formula v then
    return some (.arr ((v.elements?.getD []).filter fun v => v.str? ≠ some formula))
  return none

end Foreign

/-- A group without formulas. -/
def newGroup (id : Text) (name : Json) (created : Int) : Group :=
  ⟨id, [], [("name".toList, name), ("created_at".toList, .int created)]⟩

/-- The identifier of the default group. -/
def defaultId : Text := "default".toList

/-- The name of the default group. -/
def defaultName : Json := .lit "常用"

/-- The entries before one with an identifier, that one, and those after it. -/
def split (id : Text) : List Entry → Except Error (Option (List Entry × Entry × List Entry))
  | [] => .ok none
  | e :: rest =>
    match e.hasId id with
    | .error f => .error f
    | .ok true => .ok (some ([], e, rest))
    | .ok false =>
      match split id rest with
      | .error f => .error f
      | .ok none => .ok none
      | .ok (some (before, found, after)) => .ok (some (e :: before, found, after))

/-- The identifier of a group created at a time. -/
def stampId (time : Int) : Text := 'g' :: '_' :: Text.ofInt time

/-- The first time from `time` on whose identifier is free, out of at most `fuel + 1` times. -/
def freeTime (entries : List Entry) : Nat → Int → Except Error Int
  | 0, time => .ok time
  | fuel + 1, time =>
    match split (stampId time) entries with
    | .error e => .error e
    | .ok none => .ok time
    | .ok (some _) => freeTime entries fuel (time + 1)

namespace Collection

/-- The collection of a file's entries. -/
def ofEntries (entries : List Entry) : Collection := ⟨entries, 0⟩

/-- The collection as it is when it is looked at: it has a group. -/
def opened (clock : Clock) (c : Collection) : Collection :=
  if c.entries.isEmpty then
    ⟨[.group (newGroup defaultId defaultName (clock c.readings))], c.readings + 1⟩
  else c

/-- Adds a group; as many identifiers are tried as there are entries, and one more. -/
def addGroup (clock : Clock) (c : Collection) (name : Json) :
    Except Error Group × Collection :=
  let c := c.opened clock
  let now := clock c.readings
  let c := { c with readings := c.readings + 1 }
  match freeTime c.entries c.entries.length now with
  | .error e => (.error e, c)
  | .ok time =>
    let g := newGroup (stampId time) name time
    (.ok g, { c with entries := c.entries ++ [.group g] })

/-- The entries that do not have an identifier. -/
def without (id : Text) : List Entry → Except Error (List Entry)
  | [] => .ok []
  | e :: rest => do
    let has ← e.hasId id
    let rest ← without id rest
    return if has then rest else e :: rest

/-- Removes the groups of an identifier and says whether there were any. -/
def deleteGroup (clock : Clock) (c : Collection) (id : Text) : Except Error Bool × Collection :=
  let c := c.opened clock
  match without id c.entries with
  | .error e => (.error e, c)
  | .ok rest =>
    if rest.length = c.entries.length then (.ok false, c)
    else (.ok true, { c with entries := rest })

/-- Changes the formulas of the first entry of an identifier by `f`, unless there is no such entry or
`f` has no answer; says whether anything is changed.  An entry that is no group is changed by `foreign`. -/
def changeFormulas (clock : Clock) (c : Collection) (id : Text)
    (f : List Text → Option (List Text)) (foreign : Json → Except Error (Option Json)) :
    Except Error Bool × Collection :=
  let c := c.opened clock
  match split id c.entries with
  | .error e => (.error e, c)
  | .ok none => (.ok false, c)
  | .ok (some (before, .foreign v, after)) =>
    match v.field? "formulas" with
    | none => (.error (.missing "formulas"), c)
    | some formulas =>
      match foreign formulas with
      | .error e => (.error e, c)
      | .ok none => (.ok false, c)
      | .ok (some formulas) =>
        let changed := Json.setField "formulas".toList formulas (v.fields?.getD [])
        (.ok true, { c with entries := before ++ Entry.ofJson (.obj changed) :: after })
  | .ok (some (before, .group g, after)) =>
    match f g.formulas with
    | none => (.ok false, c)
    | some formulas =>
      (.ok true, { c with entries := before ++ .group { g with formulas := formulas } :: after })

/-- Adds a formula to a group unless it is there; says whether it is added. -/
def addFormula (clock : Clock) (c : Collection) (id formula : Text) :
    Except Error Bool × Collection :=
  c.changeFormulas clock id
    (fun formulas => if formulas.contains formula then none else some (formulas ++ [formula]))
    (Foreign.add formula)

/-- Removes a formula from a group; says whether it was there. -/
def removeFormula (clock : Clock) (c : Collection) (id formula : Text) :
    Except Error Bool × Collection :=
  c.changeFormulas clock id
    (fun formulas =>
      if formulas.contains formula then some (formulas.filter (· ≠ formula)) else none)
    (Foreign.remove formula)

/-- The JSON form. -/
def toJson (c : Collection) : Json := .arr (c.entries.map Entry.toJson)

end Collection

/-- The entries of a file's value: a value that does not count as given holds none. -/
def entriesOf (v : Json) : Except Error (List Entry) :=
  match v with
  | .arr items => .ok (items.map Entry.ofJson)
  | v => if v.isGiven then .error .wrongType else .ok []

end DrawFormula.Favorites
