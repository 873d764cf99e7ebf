import DrawFormula.History.Line
import DrawFormula.Request.Basic
import DrawFormula.Settings

/-! # Bodies of calls

What is asked of the service beyond requests for backtests and searches: draws to import and
changes of settings.
-/
namespace DrawFormula.Service

/-- What is to be imported: the lines of a text with their zodiac year, and draws. -/
structure Import where
  text : Option Text
  draws : List RawDraw
  zodiacYear : Int

/-- The draws on the lines of the text, if there is one; an empty text counts as none. -/
def Import.textDraws? (r : Import) : Option (List Draw) :=
  match r.text with
  | none | some [] => none
  | some text => some (History.ofText text r.zodiacYear)

/-- Checks what is to be imported. -/
def Import.check (v : Json) : Checked Import :=
  (Checked.fields .noAttributes v).andThen fun fs =>
    mk <$> Checked.field fs "text" none (Checked.optional Checked.text)
      <*> Checked.field fs "draws" [] (Checked.list (RawDraw.check .noAttributes))
      <*> Checked.field fs "zodiac_year" Number.defaultYear Checked.int

/-- Changes of settings; a setting without a number is set to nothing. -/
abbrev Changes := List (Setting × Option Int)

namespace Changes

/-- The change of a setting that fields ask for. -/
def ofField? (fs : List (Text × Json)) (name : Setting) : Option (Checked (Setting × Option Int)) :=
  (fs.find? fun f => f.1 = name.name).map fun f =>
    ((Checked.optional Checked.int f.2).under name.name).map fun value => (name, value)

/-- Checks changes of settings; fields that are no settings are passed over. -/
def check (v : Json) : Checked Changes :=
  (Checked.fields .noAttributes v).andThen fun fs =>
    Checked.all (Setting.all.filterMap (ofField? fs))

/-- Whether the number of periods, if it is among the changes, may be set. -/
def areAllowed (changes : Changes) : Bool :=
  changes.all fun c => c.1 ≠ .periods || c.2.all (0 < ·)

/-- The changes as fields. -/
def toFields (changes : Changes) : List (Text × Json) :=
  changes.map fun c => (c.1.name, Json.opt .int c.2)

end Changes

end DrawFormula.Service
