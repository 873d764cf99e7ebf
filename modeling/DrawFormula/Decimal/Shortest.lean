import DrawFormula.Text.Numeral

/-! # Decimal text of floating-point numbers

A finite number is exactly `mantissa * 2 ^ exponent`.  Its text has the fewest digits that read
back as the same number; of two such texts the nearer one is taken, and of two that are as near the
one with an even last digit.  Rounding to a number of places is exact too: the value itself is
rounded, a tie goes to the even neighbour, and the result is the number nearest to that decimal.
-/
namespace DrawFormula.Decimal

/-- The exact value of a finite number that is not zero, sign aside. -/
structure Binary where
  mantissa : Nat
  exponent : Int
  /-- The number below is nearer than the number above. -/
  atPowerOfTwo : Bool
deriving Repr, DecidableEq

/-- The exact absolute value that 64 bits encode, for a finite number. -/
def Binary.ofBits (bits : UInt64) : Binary :=
  let fraction : Nat := bits.toNat % Nat.pow 2 52
  let biased : Nat := bits.toNat / Nat.pow 2 52 % 2048
  if biased = 0 then ⟨fraction, -1074, false⟩
  else ⟨fraction + Nat.pow 2 52, Int.ofNat biased - 1075, fraction = 0 && 1 < biased⟩

/-- A non-negative rational as a quotient. -/
structure Ratio where
  num : Nat
  den : Nat
deriving Repr, DecidableEq

namespace Ratio

/-- The ratio `n * base ^ exponent`. -/
def scaled (n base : Nat) (exponent : Int) : Ratio :=
  if 0 ≤ exponent then ⟨n * Nat.pow base exponent.toNat, 1⟩
  else ⟨n, Nat.pow base (-exponent).toNat⟩

/-- The ratio times `10 ^ exponent`. -/
def timesTen (r : Ratio) (exponent : Int) : Ratio :=
  if 0 ≤ exponent then ⟨r.num * Nat.pow 10 exponent.toNat, r.den⟩
  else ⟨r.num, r.den * Nat.pow 10 (-exponent).toNat⟩

/-- The integer nearest to the ratio, the even one of two. -/
def nearest (r : Ratio) : Nat :=
  let q := r.num / r.den
  let twice := 2 * (r.num % r.den)
  if twice < r.den then q
  else if r.den < twice then q + 1
  else if q % 2 = 0 then q else q + 1

/-- Comparison of ratios. -/
def le (a b : Ratio) : Bool := a.num * b.den ≤ b.num * a.den

/-- Strict comparison of ratios. -/
def lt (a b : Ratio) : Bool := a.num * b.den < b.num * a.den

end Ratio

namespace Binary

/-- The exact value. -/
def value (b : Binary) : Ratio := Ratio.scaled b.mantissa 2 b.exponent

/-- The midpoint to the number below. -/
def lower (b : Binary) : Ratio :=
  Ratio.scaled (4 * b.mantissa - if b.atPowerOfTwo then 1 else 2) 2 (b.exponent - 2)

/-- The midpoint to the number above. -/
def upper (b : Binary) : Ratio := Ratio.scaled (4 * b.mantissa + 2) 2 (b.exponent - 2)

/-- Whether a ratio is read as this number: a midpoint is read as the even neighbour. -/
def readsBack (b : Binary) (r : Ratio) : Bool :=
  if b.mantissa % 2 = 0 then Ratio.le b.lower r && Ratio.le r b.upper
  else Ratio.lt b.lower r && Ratio.lt r b.upper

end Binary

/-- A decimal `digits * 10 ^ exponent`. -/
structure Digits where
  digits : Nat
  exponent : Int
deriving Repr, DecidableEq

/-- The ratio that a decimal denotes. -/
def Digits.value (d : Digits) : Ratio := Ratio.scaled d.digits 10 d.exponent

/-- The decimal at the given exponent that is nearest to the value and reads back, if the
neighbours of the value on that grid do. -/
def onGrid? (b : Binary) (exponent : Int) : Option Digits :=
  let q := b.value.timesTen (-exponent)
  let below : Digits := ⟨q.num / q.den, exponent⟩
  let above : Digits := ⟨q.num / q.den + 1, exponent⟩
  match b.readsBack below.value, b.readsBack above.value with
  | true, true => some ⟨q.nearest, exponent⟩
  | true, false => some below
  | false, true => some above
  | false, false => none

/-- The exponent `k` with `10 ^ (k - 1) ≤ value < 10 ^ k`, searched upwards from `start`. -/
def magnitudeFrom (b : Binary) : Nat → Int → Int
  | 0, k => k
  | fuel + 1, k =>
    if Ratio.lt b.value (Ratio.scaled 1 10 k) then k else magnitudeFrom b fuel (k + 1)

/-- The number of digits before the decimal point, or minus the zeros after it. -/
def magnitude (b : Binary) : Int :=
  let bits := (Nat.log2 b.mantissa : Int) + b.exponent
  magnitudeFrom b 4 ((bits * 30103).fdiv 100000 - 1)

/-- The first grid from coarse to fine that holds a decimal which reads back. -/
def firstGrid (b : Binary) (k : Int) : Nat → Nat → Digits
  | 0, count => (onGrid? b (k - count)).getD ⟨0, 0⟩
  | fuel + 1, count => (onGrid? b (k - count)).getD (firstGrid b k fuel (count + 1))

/-- The shortest decimal that reads back; seventeen digits always suffice. -/
def shortest (b : Binary) : Digits :=
  if b.mantissa = 0 then ⟨0, 0⟩ else firstGrid b (magnitude b) 17 1

/-- The decimal without zeros at the end of its digits. -/
def trimZeros : Nat → Digits → Digits
  | 0, d => d
  | fuel + 1, d =>
    if d.digits ≠ 0 ∧ d.digits % 10 = 0 then trimZeros fuel ⟨d.digits / 10, d.exponent + 1⟩ else d

/-- Decimal text of a decimal: positional from `10 ^ -4` to below `10 ^ 16`, with an exponent of
at least two digits otherwise. -/
def Digits.text (d : Digits) : Text :=
  let digits := Text.ofNat d.digits
  let point : Int := digits.length + d.exponent
  if d.digits = 0 then ['0', '.', '0']
  else if -4 < point ∧ point ≤ 16 then
    if point ≤ 0 then '0' :: '.' :: (List.replicate (-point).toNat '0' ++ digits)
    else if d.exponent < 0 then
      digits.take point.toNat ++ '.' :: digits.drop point.toNat
    else digits ++ List.replicate d.exponent.toNat '0' ++ ['.', '0']
  else
    let mark : Text := if point - 1 < 0 then ['e', '-'] else ['e', '+']
    let size := Text.ofNat (point - 1).natAbs
    let padding : Text := if size.length < 2 then ['0'] else []
    match digits with
    | first :: [] => first :: (mark ++ padding ++ size)
    | first :: rest => first :: '.' :: (rest ++ mark ++ padding ++ size)
    | [] => []

/-- Whether the sign bit is set. -/
def isNegative (x : Float) : Bool := x.toBits.toNat / Nat.pow 2 63 = 1

/-- The shortest text that reads back, with words for infinity and for the absence of a number. -/
def textWith (infinity nan : String) (x : Float) : Text :=
  if x.isNaN then nan.toList
  else
    let sign : Text := if isNegative x then ['-'] else []
    if x.isInf then sign ++ infinity.toList
    else sign ++ (trimZeros 20 (shortest (Binary.ofBits x.toBits))).text

/-- The shortest text that reads back. -/
def text (x : Float) : Text := textWith "Infinity" "NaN" x

/-- The shortest text that reads back, as messages and tables have it. -/
def spelled (x : Float) : Text := textWith "inf" "nan" x

/-- The number nearest to `x` rounded to a number of decimal places. -/
def roundTo (places : Nat) (x : Float) : Float :=
  if x.isNaN || x.isInf then x
  else
    let n := ((Binary.ofBits x.toBits).value.timesTen places).nearest
    let rounded := Float.ofScientific n true places
    if isNegative x then -rounded else rounded

/-- The integer part, for a finite number. -/
def truncate (x : Float) : Int :=
  let r := (Binary.ofBits x.toBits).value
  let n : Int := (r.num / r.den : Nat)
  if isNegative x then -n else n

/-- Whether a finite number is an integer. -/
def isIntegral (x : Float) : Bool :=
  let r := (Binary.ofBits x.toBits).value
  !x.isNaN && !x.isInf && r.num % r.den = 0

end DrawFormula.Decimal
