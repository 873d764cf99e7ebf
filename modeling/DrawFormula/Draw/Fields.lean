import DrawFormula.Draw
import DrawFormula.Json.Access
import DrawFormula.Json.Integer
import DrawFormula.Json.Literal

/-! # Draws from named fields

A draw is built from an object.  The strict form knows the fields of a draw and no others; the
lenient form ignores what it does not know and takes loose values for the period and the year.
The rules of draws are about the numbers and the year; whatever else is given is kept as it is.
-/
namespace DrawFormula

/-- Why an object is no draw. -/
inductive FieldError where
  /-- A required field is missing. -/
  | missing (name : String)
  /-- A field is unknown or of a wrong type. -/
  | wrongType
  /-- A value is not taken for an integer. -/
  | integer (e : IntegerError)
  /-- The values break a rule of draws. -/
  | draw (e : DrawError)
deriving Repr, DecidableEq

namespace Draw

/-- The names of the fields. -/
def fieldNames : List String := ["period", "numbers", "zodiac_year", "weekday", "stem_branch"]

/-- What a value of numbers runs through. -/
def itemsOf (v : Json) : Except FieldError (List Json) :=
  match v.elements? with
  | some items => .ok items
  | none => .error .wrongType

/-- The integer that a value stands for. -/
def integer (v : Json) : Except FieldError Int := v.toInteger.mapError .integer

end Draw

/-- A draw with its values as they are given. -/
structure LooseDraw where
  period : Json
  zodiacYear : Json
  weekday : Json
  stemBranch : Json
  /-- A draw of the numbers in the year. -/
  core : Draw

namespace LooseDraw

/-- The draw of values; the year has to stand for an integer. -/
def make (period : Json) (numbers : List Int) (zodiacYear weekday stemBranch : Json) :
    Except FieldError LooseDraw := do
  let coreIn (year : Int) : Except FieldError Draw :=
    (Draw.make (period.int?.getD 0) numbers year none none).mapError fun e =>
      .draw { e with period := period.plain }
  let _ ← coreIn Number.defaultYear
  return ⟨period, zodiacYear, weekday, stemBranch, ← coreIn (← Draw.integer zodiacYear)⟩

/-- The draw of an object with no fields but those of a draw. -/
def ofFields (v : Json) : Except FieldError LooseDraw := do
  let fields := v.fields?.getD []
  if fields.any fun f => !Draw.fieldNames.contains (String.ofList f.1) then throw .wrongType
  let some period := v.field? "period" | throw .wrongType
  let some numbers := v.field? "numbers" | throw .wrongType
  make period (← (← Draw.itemsOf numbers).mapM Draw.integer)
    ((v.field? "zodiac_year").getD (.int Number.defaultYear))
    ((v.field? "weekday").getD .null) ((v.field? "stem_branch").getD .null)

/-- The draw of an object with loose values; a year that is not given is the default one. -/
def ofRecord (v : Json) : Except FieldError LooseDraw := do
  let some period := v.field? "period" | throw (.missing "period")
  let period ← Draw.integer period
  let some numbers := v.field? "numbers" | throw (.missing "numbers")
  let numbers ← Draw.itemsOf numbers
  let year := (v.field? "zodiac_year").getD .null
  let year ← if year.isGiven then Draw.integer year else pure Number.defaultYear
  make (.int period) (← numbers.mapM Draw.integer) (.int year) ((v.field? "weekday").getD .null)
    ((v.field? "stem_branch").getD .null)

/-- A value that is an integer or null. -/
def optionalInt : Json → Except FieldError (Option Int)
  | .null => .ok none
  | .int i => .ok (some i)
  | _ => .error .wrongType

/-- A value that is a text or null. -/
def optionalText : Json → Except FieldError (Option Text)
  | .null => .ok none
  | .str s => .ok (some s)
  | _ => .error .wrongType

/-- The draw, if its values are what they have to be. -/
def toDraw (d : LooseDraw) : Except FieldError Draw := do
  let .int period := d.period | throw .wrongType
  (Draw.make period d.core.numbers d.core.zodiacYear (← optionalInt d.weekday)
    (← optionalText d.stemBranch)).mapError .draw

/-- The JSON form. -/
def toJson (d : LooseDraw) : Json :=
  .record [("period", d.period), ("numbers", .arr (d.core.numbers.map .int)),
    ("zodiac_year", d.zodiacYear), ("weekday", d.weekday), ("stem_branch", d.stemBranch)]

end LooseDraw

/-- The draw of an object with the fields of a draw. -/
def Draw.ofFields (v : Json) : Except FieldError Draw := do (← LooseDraw.ofFields v).toDraw

end DrawFormula
