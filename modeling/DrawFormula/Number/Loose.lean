import DrawFormula.Json.Integer
import DrawFormula.Json.Key
import DrawFormula.Number

/-! # Classes of loose values

A loose value has the class of the number that it is equal to, and digits like the integer that it
stands for.  A number with a fraction has a segment and an animal too; they are then no integers
either.
-/
namespace DrawFormula.Number

/-- The sum of the digits of a value. -/
def digitSumOf (v : Json) : Except IntegerError Json := v.toInteger.map fun n => .int (digitSum n)

/-- The class of a value among the classes of numbers. -/
def classOfValue (class? : Int → Int) (v : Json) : Except IntegerError Json :=
  match v.key? with
  | none => .error .wrongType
  | some (.int n) => .ok (.int (class? n))
  | some _ => .ok (.int 0)

/-- The wave colour of a value. -/
def waveOf (v : Json) : Except IntegerError Json := classOfValue wave v

/-- The class of size and parity of a value. -/
def sizeParityOf (v : Json) : Except IntegerError Json := classOfValue sizeParity v

/-- The phase of a value.  A year that is not given, or has no table, has the default one. -/
def phaseOf (v year : Json) : Except IntegerError Json :=
  let year := if year.isGiven then year else .int defaultYear
  match year.key? with
  | none => .error .wrongType
  | some (.int y) => classOfValue (phase · y) v
  | some _ => classOfValue (phase · defaultYear) v

/-- A truth value as a number; other values stay. -/
def counted : Json → Json
  | .bool b => .int (if b then 1 else 0)
  | v => v

/-- Whether a number with a fraction is in the range of draws. -/
def isInRange (x : Float) : Bool := 1 ≤ x && x ≤ 49

/-- The segment of a value. -/
def segmentOf (v : Json) : Except IntegerError Json :=
  match counted v with
  | .int n => .ok (.int (segment n))
  | .float x =>
    .ok (if isInRange x then .float (Float.ofInt ((Decimal.truncate (x - 1)).fdiv 7) + 1) else .int 1)
  | _ => .error .wrongType

/-- The remainder of a number by 12, from 0 to below 12. -/
def remainder (x : Float) : Float := x - 12 * (x / 12).floor

/-- The animal that owns a number with a fraction in a year. -/
def zodiacBetween (x year : Float) : Float := remainder (year - (remainder (x - 1) + 1)) + 1

/-- The animal of a value in a year. -/
def zodiacOf (v year : Json) : Except IntegerError Json :=
  match counted v, counted year with
  | .int n, .int y => .ok (.int (zodiac n y))
  | .int n, .float y =>
    .ok (if least ≤ n ∧ n ≤ greatest then .float (zodiacBetween (Float.ofInt n) y) else .int 1)
  | .float x, .int y =>
    .ok (if isInRange x then .float (zodiacBetween x (Float.ofInt y)) else .int 1)
  | .float x, .float y => .ok (if isInRange x then .float (zodiacBetween x y) else .int 1)
  | .int n, _ => if least ≤ n ∧ n ≤ greatest then .error .wrongType else .ok (.int 1)
  | .float x, _ => if isInRange x then .error .wrongType else .ok (.int 1)
  | _, _ => .error .wrongType

end DrawFormula.Number
