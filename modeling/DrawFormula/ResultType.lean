import DrawFormula.Number

/-! # Result types

A result type names the attribute of the special number that a formula predicts.  Its values run
around a cycle; any integer is reduced into the cycle, and a value with its neighbours to both
sides is an expanded set.
-/
namespace DrawFormula

/-- The predicted attribute of the special number. -/
inductive ResultType where
  | tail | head | digitSum | wave | fivePhase | zodiac | single | sizeParity
deriving Repr, DecidableEq, Hashable

namespace ResultType

/-- Every result type. -/
def all : List ResultType :=
  [tail, head, digitSum, wave, fivePhase, zodiac, single, sizeParity]

/-- The word for a result type in formulas. -/
def token : ResultType → Text
  | tail => ['尾', '数', '类']
  | head => ['头', '数', '类']
  | digitSum => ['合', '数', '类']
  | wave => ['波', '色', '类']
  | fivePhase => ['五', '行', '类']
  | zodiac => ['肖', '位', '类']
  | single => ['单', '特', '类']
  | sizeParity => ['大', '小', '单', '双', '类']

/-- The result type that a word names. -/
def ofToken? (word : Text) : Option ResultType := all.find? fun t => t.token = word

/-- How many values the type has. -/
def cycle : ResultType → Nat
  | tail => 10
  | head => 5
  | digitSum => 13
  | wave => 3
  | fivePhase => 5
  | zodiac => 12
  | single => 49
  | sizeParity => 4

/-- Whether the values are counted from 1; otherwise they are counted from 0. -/
def oneBased : ResultType → Bool
  | zodiac | single | digitSum => true
  | _ => false

/-- The least value. -/
def first (t : ResultType) : Int := if t.oneBased then 1 else 0

/-- The values in ascending order. -/
def domain (t : ResultType) : List Int :=
  (List.range t.cycle).map fun i => t.first + Int.ofNat i

/-- The value in the domain that is congruent to `value`. -/
def reduce (t : ResultType) (value : Int) : Int := (value - t.first).fmod t.cycle + t.first

/-- The values at most `left` steps before and `right` steps after `base` around the cycle,
ascending.  A negative width counts as 0. -/
def expand (t : ResultType) (base left right : Int) : List Int :=
  t.domain.filter fun v => (v - (base - max 0 left)).fmod t.cycle ≤ max 0 left + max 0 right

/-- The zodiac year to use: none and 0 stand for the default. -/
def yearOrDefault (year : Option Int) : Int :=
  match year with
  | none => Number.defaultYear
  | some y => if y = 0 then Number.defaultYear else y

/-- The value of a number in a zodiac year. -/
def valueOf (t : ResultType) (n : Int) (zodiacYear : Option Int) : Int :=
  let year := yearOrDefault zodiacYear
  match t with
  | tail => n.fmod 10
  | head => n.fdiv 10
  | digitSum => Number.digitSum n
  | wave => Number.wave n
  | fivePhase => Number.phase n year
  | zodiac => Number.zodiac n year
  | single => n
  | sizeParity => Number.sizeParity n

/-- The numbers that have a value in a zodiac year. -/
def numbersFor (t : ResultType) (value : Int) (zodiacYear : Option Int) : List Int :=
  Number.all.filter fun n => t.valueOf n zodiacYear = value

/-- The name at an index, or the index itself in digits. -/
def nameAt (names : List String) (index value : Int) : Text :=
  if 0 ≤ index then
    match names[index.toNat]? with
    | some name => name.toList
    | none => Text.ofInt value
  else Text.ofInt value

/-- The written form of a value. -/
def label (t : ResultType) (value : Int) : Text :=
  match t with
  | tail => Text.ofInt value ++ ['尾']
  | head => Text.ofInt value ++ ['头']
  | digitSum => Text.ofInt value ++ ['合']
  | wave => nameAt Number.waveNames value value
  | fivePhase => nameAt Number.phaseNames value value
  | zodiac => nameAt Number.zodiacNames (value - 1) value
  | single => Text.padded 2 value
  | sizeParity => nameAt Number.sizeParityNames value value

end ResultType

end DrawFormula
