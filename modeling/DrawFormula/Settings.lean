import DrawFormula.Json.Reader
import DrawFormula.Json.Printer

/-! # Settings

The settings that a user keeps for backtests and searches.  They live in a JSON file; values are
kept as they are found there, a setting that the file does not name has its default value, and
names that are no settings are passed over.
-/
namespace DrawFormula

/-- The names of settings. -/
inductive Setting where
  | offset | periods | left | right | targetPeriod | zodiacYear
  | searchOffset | searchPeriods | searchLeft | searchRight
deriving Repr, DecidableEq

namespace Setting

/-- Every setting, in the order in which they are written. -/
def all : List Setting :=
  [offset, periods, left, right, targetPeriod, zodiacYear, searchOffset, searchPeriods, searchLeft,
    searchRight]

/-- The name of a setting in files. -/
def name : Setting → Text
  | offset => "offset".toList
  | periods => "periods".toList
  | left => "left_expand".toList
  | right => "right_expand".toList
  | targetPeriod => "target_period".toList
  | zodiacYear => "zodiac_year".toList
  | searchOffset => "search_offset".toList
  | searchPeriods => "search_periods".toList
  | searchLeft => "search_left".toList
  | searchRight => "search_right".toList

/-- The setting that a word names. -/
def ofName? (word : Text) : Option Setting := all.find? fun s => s.name = word

/-- The value of a setting that was never changed. -/
def default : Setting → Json
  | periods | searchPeriods => .int 15
  | zodiacYear => .int 7
  | targetPeriod => .null
  | _ => .int 0

end Setting

/-- A value for every setting. -/
structure Settings where
  value : Setting → Json

/-- Why a file holds no settings. -/
inductive SettingsError where
  /-- The file is not read as JSON. -/
  | json (e : JsonError)
  /-- The file holds no object. -/
  | notObject
deriving Repr, DecidableEq

namespace Settings

/-- The settings that were never changed. -/
def default : Settings := ⟨Setting.default⟩

/-- The settings with another value for one. -/
def set (s : Settings) (name : Setting) (v : Json) : Settings :=
  ⟨fun n => if n = name then v else s.value n⟩

/-- The settings with the values of those fields that name settings. -/
def update (s : Settings) (fields : List (Text × Json)) : Settings :=
  fields.foldl (fun s (word, v) =>
    match Setting.ofName? word with
    | some name => s.set name v
    | none => s) s

/-- The JSON form. -/
def toJson (s : Settings) : Json := .obj (Setting.all.map fun n => (n.name, s.value n))

/-- The settings of a JSON value. -/
def ofJson : Json → Except SettingsError Settings
  | .obj fields => .ok (default.update fields)
  | _ => .error .notObject

/-- The settings of a file's text. -/
def ofText (t : Text) : Except SettingsError Settings :=
  match Json.read t with
  | .ok v => ofJson v
  | .error e => .error (.json e)

/-- The text of a file that holds the settings. -/
def text (s : Settings) : Text := s.toJson.indented

/-- The text of a file that holds no settings yet. -/
def blankText : Text := (Json.obj []).compact

end Settings

end DrawFormula
