import DrawFormula.Number

/-! # Draws

A draw is one period's seven distinct numbers from 1 to 49, in the order in which they were
drawn: six ping numbers and then the special number.  The type holds only such draws; `make`
checks raw values and names the first rule that they break.
-/
namespace DrawFormula

/-- One period's draw. -/
structure Draw where
  /-- The period's number. -/
  period : Int
  /-- The numbers in draw order; the last one is special. -/
  numbers : List Int
  /-- The animal, 1 to 12, of the year of the draw. -/
  zodiacYear : Int
  /-- The day of the week, if known. -/
  weekday : Option Int
  /-- The stem and branch of the day, if known. -/
  stemBranch : Option Text
  length_numbers : numbers.length = 7
  nodup_numbers : numbers.Nodup
  numbers_inRange : ∀ n ∈ numbers, Number.least ≤ n ∧ n ≤ Number.greatest
  year_inRange : 1 ≤ zodiacYear ∧ zodiacYear ≤ 12
deriving DecidableEq

/-- A rule that raw values of a draw break. -/
inductive DrawFault where
  /-- There are not seven numbers. -/
  | wrongCount (count : Nat)
  /-- A number occurs twice. -/
  | repeated (numbers : List Int)
  /-- A number is not from 1 to 49. -/
  | outOfRange (numbers : List Int)
  /-- The zodiac year is not from 1 to 12. -/
  | badYear
deriving Repr, DecidableEq

/-- The first rule that raw values of a draw break, and the period as it is written. -/
structure DrawError where
  period : Text
  fault : DrawFault
deriving Repr, DecidableEq

/-- A list of integers between brackets. -/
def listText (ns : List Int) : String :=
  "[" ++ ", ".intercalate (ns.map fun n => String.ofList (Text.ofInt n)) ++ "]"

/-- The wording of a broken rule. -/
def DrawFault.message : DrawFault → String
  | .wrongCount count => s!"expected 7 numbers, got {count}"
  | .repeated ns => "numbers must be distinct " ++ listText ns
  | .outOfRange ns => "numbers must be within 1-49 " ++ listText ns
  | .badYear => "zodiac_year must be 1-12"

/-- The wording of a broken rule, with the period. -/
def DrawError.message (e : DrawError) : String :=
  "period " ++ String.ofList e.period ++ ": " ++ e.fault.message

namespace Draw

/-- The draw of these values, or the first rule that they break. -/
def make (period : Int) (numbers : List Int) (zodiacYear : Int) (weekday : Option Int)
    (stemBranch : Option Text) : Except DrawError Draw :=
  let fault (f : DrawFault) : Except DrawError Draw := .error ⟨Text.ofInt period, f⟩
  if hlength : numbers.length = 7 then
    if hnodup : numbers.Nodup then
      if hrange : ∀ n ∈ numbers, Number.least ≤ n ∧ n ≤ Number.greatest then
        if hyear : 1 ≤ zodiacYear ∧ zodiacYear ≤ 12 then
          .ok ⟨period, numbers, zodiacYear, weekday, stemBranch, hlength, hnodup, hrange, hyear⟩
        else fault .badYear
      else fault (.outOfRange numbers)
    else fault (.repeated numbers)
  else fault (.wrongCount numbers.length)

/-- The special number. -/
def special (d : Draw) : Int := d.numbers.get ⟨6, by simp [d.length_numbers]⟩

/-- The sum of the seven numbers. -/
def sum (d : Draw) : Int := d.numbers.foldr (· + ·) 0

/-- The six ping numbers in draw order. -/
def drawn (d : Draw) : List Int := d.numbers.take 6

/-- The six ping numbers, ascending if `sorted` and in draw order otherwise. -/
def ping (d : Draw) (sorted : Bool) : List Int :=
  if sorted then d.drawn.mergeSort (· ≤ ·) else d.drawn

theorem length_ping (d : Draw) (sorted : Bool) : (d.ping sorted).length = 6 := by
  have h := d.length_numbers
  cases sorted <;> simp [ping, drawn, h]

/-- The ping number at a place. -/
def pingAt (d : Draw) (sorted : Bool) (place : Fin 6) : Int :=
  (d.ping sorted).get ⟨place.val, by rw [length_ping]; exact place.isLt⟩

end Draw

end DrawFormula
