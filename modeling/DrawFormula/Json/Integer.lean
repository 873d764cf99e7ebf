import DrawFormula.Decimal.Shortest
import DrawFormula.Json.Basic

/-! # Integers in loose values

A loose value is taken for an integer where it plainly stands for one: booleans are 0 and 1, the
fraction of a number is cut off, and a text is read as a numeral.
-/
namespace DrawFormula

/-- Why a value is not taken for an integer. -/
inductive IntegerError where
  /-- The value is no number and no text. -/
  | wrongType
  /-- The number is infinite. -/
  | infinite
  /-- The value is the absence of a number. -/
  | notANumber
  /-- The text cannot be read. -/
  | numeral (e : NumeralError)
deriving Repr, DecidableEq

/-- The integer that a value stands for. -/
def Json.toInteger : Json → Except IntegerError Int
  | .int i => .ok i
  | .bool b => .ok (if b then 1 else 0)
  | .float x =>
    if x.isNaN then .error .notANumber
    else if x.isInf then .error .infinite
    else .ok (Decimal.truncate x)
  | .str s => (Text.readInt s).mapError .numeral
  | _ => .error .wrongType

/-- Whether a value counts as given: null, zero, false and empty values do not. -/
def Json.isGiven : Json → Bool
  | .null => false
  | .bool b => b
  | .int i => i ≠ 0
  | .float x => x != 0
  | .str s => !s.isEmpty
  | .arr items => !items.isEmpty
  | .obj fields => !fields.isEmpty

end DrawFormula
