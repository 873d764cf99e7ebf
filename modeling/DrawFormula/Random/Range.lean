import DrawFormula.Json.Integer
import DrawFormula.Random.Source

/-! # Random numbers of a range

A number is drawn from those that a start, a stop and a step run through; the stop is not among them.
The bounds may be loose values, as long as they are equal to integers.
-/
namespace DrawFormula

/-- Why no number is drawn. -/
inductive RangeError where
  /-- No number is in the range. -/
  | empty
  /-- No number is from the start on and below the stop. -/
  | emptyBetween (start stop : Int)
  /-- The step leads nowhere. -/
  | zeroStep
  /-- A bound is no integer; it is named. -/
  | fraction (bound : String)
  /-- A bound does not stand for an integer. -/
  | integer (e : IntegerError)
deriving Repr, DecidableEq

/-- The wording for a range that is empty. -/
def RangeError.emptyText : String := "empty range for randrange()"

/-- The wording of an error, apart from those of bounds that do not stand for integers. -/
def RangeError.message : RangeError → String
  | empty => emptyText
  | emptyBetween start stop =>
    let shown (n : Int) : String := String.ofList (Text.ofInt n)
    emptyText ++ " (" ++ shown start ++ ", " ++ shown stop ++ ", " ++ shown (stop - start) ++ ")"
  | zeroStep => "zero step for randrange()"
  | fraction bound => "non-integer " ++ bound ++ " for randrange()"
  | integer _ => ""

namespace RandomSource

/-- The integer that a bound is equal to. -/
def boundOf (name : String) (v : Json) : Except RangeError Int :=
  match v.toInteger with
  | .error e => .error (.integer e)
  | .ok n =>
    match v with
    | .str _ => .error (.fraction name)
    | .float x => if x == Float.ofInt n then .ok n else .error (.fraction name)
    | _ => .ok n

/-- A number and one more. -/
def successor? : Json → Option Json
  | .int n => some (.int (n + 1))
  | .bool b => some (.int (if b then 2 else 1))
  | .float x => some (.float (x + 1))
  | _ => none

variable {γ : Type} [RandomSource γ]

/-- A number of `count` ones, `step` apart from `start` on. -/
def fromSteps (start step count : Int) (e : RangeError) (g : γ) : Except RangeError (Int × γ) :=
  if h : 0 < count.toNat then
    let (i, g) := below count.toNat h g
    .ok (start + step * i.val, g)
  else .error e

/-- A number from `start` on and before `stop`, in steps. -/
def inRange (start stop step : Int) (g : γ) : Except RangeError (Int × γ) :=
  let width := stop - start
  if step = 1 then fromSteps start 1 width (.emptyBetween start stop) g
  else if 0 < step then fromSteps start step ((width + step - 1).fdiv step) .empty g
  else if step < 0 then fromSteps start step ((width + step + 1).fdiv step) .empty g
  else .error .zeroStep

/-- A number of the range with these bounds; a single bound is the stop of one that starts at 0. -/
def ofBounds (bounds : List Json) (g : γ) : Except RangeError (Int × γ) := do
  match bounds with
  | [start] | [start, .null] => fromSteps 0 1 (← boundOf "arg 1" start) .empty g
  | [start, stop] => inRange (← boundOf "arg 1" start) (← boundOf "stop" stop) 1 g
  | [start, stop, step] =>
    let start ← boundOf "arg 1" start
    let stop ← boundOf "stop" stop
    inRange start stop (← boundOf "step" step) g
  | _ => throw (.integer .wrongType)

/-- A number from the first one to the second one of two ends. -/
def ofEnds (ends : List Json) (g : γ) : Except RangeError (Int × γ) := do
  let [low, high] := ends | throw (.integer .wrongType)
  let some stop := successor? high | throw (.integer .wrongType)
  inRange (← boundOf "arg 1" low) (← boundOf "stop" stop) 1 g

end RandomSource

end DrawFormula
