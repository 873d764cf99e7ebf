import DrawFormula.Decimal.Shortest

/-! # Reading floating-point numbers

A decimal numeral has digits with at most one point and an optional exponent; the number read is
the one nearest to it.  Infinity and the absence of a number are spelled by words.
-/
namespace DrawFormula.Decimal

/-- The number nearest to `digits * 10 ^ exponent`; beyond every finite number it is infinite,
and far below the smallest it is zero. -/
def ofDigits (digits : Nat) (exponent : Int) : Float :=
  let top := (Text.ofNat digits).length + exponent
  if digits = 0 then 0
  else if 400 < top then 1 / 0
  else if top < -400 then 0
  else if 0 ≤ exponent then Float.ofScientific digits false exponent.toNat
  else Float.ofScientific digits true (-exponent).toNat

/-- The parts of a decimal numeral without a sign. -/
structure Numeral where
  whole : Text
  fraction : Text
  exponent : Int
  /-- Whether a point or an exponent is written. -/
  marked : Bool
deriving Repr, DecidableEq

/-- Digits with single underscores between them, and the rest; no digits at all give `some`. -/
def digitGroups? (grouped : Bool) (t : Text) : Option (Text × Text) :=
  let inRun := fun c => Text.isDigit c || (grouped && c == '_')
  let run := t.takeWhile inRun
  if run.isEmpty || Text.wellGrouped run then some (run.filter (· ≠ '_'), t.dropWhile inRun)
  else none

/-- The exponent at the end of a numeral. -/
def exponent? (grouped : Bool) (t : Text) : Option Int :=
  let (negative, digits) := Text.splitSign t
  match digitGroups? grouped digits with
  | some (d :: ds, []) =>
    let n : Int := Text.digitsValue (d :: ds)
    some (if negative then -n else n)
  | _ => none

/-- The parts of a numeral, with underscores between digits if `grouped`. -/
def numeral? (grouped : Bool) (t : Text) : Option Numeral := do
  let (whole, rest) ← digitGroups? grouped t
  let (fraction, rest, point) ← match rest with
    | '.' :: rest => (digitGroups? grouped rest).map fun (fraction, rest) => (fraction, rest, true)
    | rest => some ([], rest, false)
  if whole.isEmpty && fraction.isEmpty then none
  else match rest with
    | [] => some ⟨whole, fraction, 0, point⟩
    | c :: rest =>
      if c = 'e' ∨ c = 'E' then
        (exponent? grouped rest).map fun e => ⟨whole, fraction, e, true⟩
      else none

/-- The number nearest to a numeral. -/
def Numeral.value (n : Numeral) : Float :=
  ofDigits (Text.digitsValue (n.whole ++ n.fraction)) (n.exponent - n.fraction.length)

/-- Reads a number: blanks around it, one sign, a numeral or a word. -/
def read? (t : Text) : Option Float :=
  let (negative, body) := Text.splitSign (Text.trimBy Text.isNumeralBlank t)
  let magnitude :=
    match numeral? true body with
    | some n => some n.value
    | none =>
      let word := Text.lower body
      if word = "inf".toList ∨ word = "infinity".toList then some (1 / 0)
      else if word = "nan".toList then some (0 / 0)
      else none
  magnitude.map fun x => if negative then -x else x

/-- The wording for a text that is not read as a number. -/
def unreadable (t : Text) : String :=
  "could not convert string to float: " ++ String.ofList (Text.quoted t)

end DrawFormula.Decimal
