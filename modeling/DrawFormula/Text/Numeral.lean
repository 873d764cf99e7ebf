import DrawFormula.Text.Quoted

/-! # Integers in text

Numerals are written with ASCII digits and read from decimal digits of any script.  Reading is
limited to `digitLimit` digits; a longer run of digits is an error of its own, found before
anything that follows the run is looked at.
-/
namespace DrawFormula

/-- Why a text is not read as an integer, or an integer not written as text. -/
inductive NumeralError where
  /-- The text is no integer numeral. -/
  | malformed (text : Text)
  /-- The numeral has more digits than are converted. -/
  | tooLong (digits : Nat)
  /-- The integer has more digits than are written. -/
  | unwritable
deriving Repr, DecidableEq

namespace Text

/-- The length of the longest run of digits that is converted. -/
def digitLimit : Nat := 4300

/-- Decimal text of a natural number. -/
def ofNat (n : Nat) : Text := Nat.toDigits 10 n

/-- Decimal text of an integer, with a sign only if it is negative. -/
def ofInt : Int → Text
  | .ofNat n => ofNat n
  | .negSucc n => '-' :: ofNat (n + 1)

/-- Decimal text of an integer with a sign always. -/
def ofIntSigned : Int → Text
  | .ofNat n => '+' :: ofNat n
  | .negSucc n => '-' :: ofNat (n + 1)

/-- Whether an integer has no more digits than are written. -/
def isWritable (n : Int) : Bool := (ofNat n.natAbs).length ≤ digitLimit

/-- Decimal text of at least `width` places, filled with zeros after the sign. -/
def padded (width : Nat) : Int → Text
  | .ofNat n => List.replicate (width - (ofNat n).length) '0' ++ ofNat n
  | .negSucc n => '-' :: (List.replicate (width - 1 - (ofNat (n + 1)).length) '0' ++ ofNat (n + 1))

/-- The number that a run of decimal digits denotes; other characters count as zero. -/
def digitsValue (digits : Text) : Nat :=
  digits.foldl (fun acc c => 10 * acc + (digitValue? c).getD 0) 0

/-- The number that a run of decimal digits denotes, if the run is not too long. -/
def readDigits (digits : Text) : Except NumeralError Nat :=
  if digitLimit < digits.length then .error (.tooLong digits.length) else .ok (digitsValue digits)

/-- Blanks that may surround a numeral: the information separators are not among them. -/
def isNumeralBlank (c : Char) : Bool := isBlank c && !(0x1c ≤ c.toNat && c.toNat ≤ 0x1f)

/-- Whether underscores stand only singly and between digits. -/
def wellGrouped : Text → Bool
  | [] => false
  | ['_'] => false
  | '_' :: _ => false
  | [_] => true
  | _ :: '_' :: rest => wellGrouped rest
  | _ :: rest => wellGrouped rest

/-- The sign and what follows it. -/
def splitSign : Text → Bool × Text
  | '-' :: rest => (true, rest)
  | '+' :: rest => (false, rest)
  | rest => (false, rest)

/-- Reads an integer: blanks around it, one sign, digits, single underscores between digits. -/
def readInt (t : Text) : Except NumeralError Int :=
  let (negative, body) := splitSign (trimBy isNumeralBlank t)
  let inNumeral := fun c => isDigit c || c == '_'
  let run := body.takeWhile inNumeral
  let digits := run.filter (· ≠ '_')
  if !wellGrouped run then .error (.malformed t)
  else match readDigits digits with
    | .error e => .error e
    | .ok n =>
      if (body.dropWhile inNumeral).isEmpty then .ok (if negative then -n else n)
      else .error (.malformed t)

end Text

/-- How much of a quoted text the wording of a reading error shows. -/
def NumeralError.shownLength : Nat := 200

/-- The wording of a reading error. -/
def NumeralError.message : NumeralError → String
  | .malformed text =>
    "invalid literal for int() with base 10: " ++
      String.ofList ((Text.quoted text).take shownLength)
  | .tooLong digits =>
    "Exceeds the limit (4300 digits) for integer string conversion: value has " ++
      s!"{digits} digits; use sys.set_int_max_str_digits() to increase the limit"
  | .unwritable =>
    "Exceeds the limit (4300 digits) for integer string conversion; " ++
      "use sys.set_int_max_str_digits() to increase the limit"

end DrawFormula
