import DrawFormula.Draw.Fields
import DrawFormula.Json.Access
import DrawFormula.Json.Key
import DrawFormula.Report
import DrawFormula.Search.Limits
import DrawFormula.Search.Params
import DrawFormula.Search.State

/-! # Records from JSON

A draw may be given as a row: its period, its numbers, and then its zodiac year, its weekday and its
tag as far as they are known.  The other records are objects whose missing fields take defaults.
-/
namespace DrawFormula

/-- The draw of a row or an object. -/
def Draw.ofJson (v : Json) : Except FieldError Draw :=
  match v with
  | .arr (period :: rest) => do
    let numbers ← (rest.take 7).mapM integer
    (make (period.int?.getD 0) numbers ((v.item 8).int?.getD Number.defaultYear) (v.item 9).int?
      (v.item 10).str?).mapError .draw
  | _ => ofFields v

/-- The overrides of an object. -/
def Overrides.ofJson (v : Json) : Overrides :=
  ⟨v.intAt? "offset", v.intAt? "periods", v.intAt? "left_expand", v.intAt? "right_expand"⟩

namespace Report

/-- The comparison that a word names. -/
def RateTest.ofName? : String → Option RateTest
  | "gt" => some greater
  | "lt" => some less
  | "eq" => some equal
  | "between" => some between
  | _ => none

/-- The filter of an object. -/
def Filter.ofJson (v : Json) : Filter :=
  let last := match (v.get "last_period").asWord with
    | "hit" => some true
    | "miss" => some false
    | _ => none
  ⟨RateTest.ofName? (v.get "hit_rate").asWord, v.floatAt "value" any.value, v.floatAt "low" any.low,
    v.floatAt "high" any.high, last, v.intAt? "min_trailing_misses", v.intAt? "max_miss_streak"⟩

/-- The JSON form of what the formulas of one result type predict. -/
def TypeGroup.toJson (g : TypeGroup) : Json :=
  .arr [.str g.resultType.token, .int g.formulas,
    .arr (g.counts.map fun (label, n) => .arr [.str label, .int n])]

end Report

namespace Search

/-- Why an object holds no parameters of a search. -/
inductive ParamsFieldError where
  | params (e : ParamsError)
  /-- The periods or the count are not taken for an integer. -/
  | integer (e : IntegerError)
  /-- A field is missing, unknown or of a wrong type. -/
  | wrongType
deriving Repr, DecidableEq

/-- The names of the parameters. -/
def parameterNames : List String :=
  ["target_hit_rate", "max_count", "strategy", "result_types", "offset", "periods", "left_expand",
    "right_expand", "seed", "time_budget", "max_evaluations"]

/-- The strategy that a value names. -/
def strategyOf (v : Json) : Except ParamsFieldError Strategy :=
  match v.key?, v.str?.bind Strategy.ofName? with
  | none, _ => .error .wrongType
  | _, some s => .ok s
  | _, none => .error (.params (.unknownStrategy v.literal))

/-- The result type that a value names. -/
def typeOf (v : Json) : Except ParamsFieldError ResultType :=
  match v.str?.bind ResultType.ofToken? with
  | some t => .ok t
  | none => .error (.params (.unknownType v.literal))

/-- The value of a field that does not count if it is null. -/
def givenField? (v : Json) (name : String) : Option Json :=
  match v.get name with
  | .null => none
  | v => some v

/-- The tolerance over a number of periods; a number with a fraction counts like the next integer. -/
def toleranceOf (periods : Json) : Except IntegerError Json :=
  match periods with
  | .int n => .ok (.int (toleranceFor n))
  | .bool _ => .ok (.int (toleranceFor 1))
  | .float x =>
    .ok (.int (if x ≤ 15 then toleranceFor 15
      else if x ≤ 100 then toleranceFor (ceiling x) else toleranceFor 101))
  | _ => .error .wrongType

/-- The integer that a field stands for. -/
def integerField (v : Json) (name : String) (default : Int) : Except ParamsFieldError Int :=
  match v.field? name with
  | some v => v.toInteger.mapError .integer
  | none => .ok default

/-- The parameters of an object. -/
def Params.ofJson (v : Json) : Except ParamsFieldError Params := do
  if (v.fields?.getD []).any fun f => !parameterNames.contains (String.ofList f.1) then
    throw .wrongType
  if (v.field? "target_hit_rate").isNone then throw .wrongType
  let strategy ← strategyOf ((v.field? "strategy").getD (.str Strategy.fast.name))
  let some types := ((v.field? "result_types").getD (.arr [])).elements? | throw .wrongType
  let types ← types.mapM typeOf
  let periods ← integerField v "periods" 15
  let maxCount ← integerField v "max_count" 20
  let seconds := if (v.field? "time_budget").isNone then some 0
    else (givenField? v "time_budget").bind secondsOf?
  return make (v.floatAt "target_hit_rate" 0) maxCount strategy types (v.intAt "offset" 0) periods
    (v.intAt "left_expand" 0) (v.intAt "right_expand" 0)
    ((givenField? v "seed").map Json.plain) seconds
    ((givenField? v "max_evaluations").bind evaluationsOf?)

/-- The scored formula of a row. -/
def Found.ofJson (v : Json) : Found :=
  ⟨(v.item 0).asText, (v.item 1).asFloat 0, (v.item 2).asNat, (v.item 3).asNat,
    (v.item 4).asFloat 0⟩

end Search

end DrawFormula
