import DrawFormula.Decimal.Reading
import DrawFormula.Json.Basic

/-! # Reading JSON

A recursive descent over the characters.  Beside the numbers of the format the words `NaN`,
`Infinity` and `-Infinity` are read.  An integer may have at most `Text.digitLimit` digits.
-/
namespace DrawFormula

/-- Why a text is not read as JSON. -/
inductive JsonError where
  /-- The text is not of the format. -/
  | malformed
  /-- An integer has too many digits. -/
  | numeral (e : NumeralError)
deriving Repr, DecidableEq

namespace Json

/-- White space between tokens. -/
def isSpace (c : Char) : Bool := c = ' ' || c = '\t' || c = '\n' || c = '\r'

/-- The value of a hexadecimal digit. -/
def hexValue? (c : Char) : Option Nat :=
  if '0' ≤ c ∧ c ≤ '9' then some (c.toNat - '0'.toNat)
  else if 'a' ≤ c ∧ c ≤ 'f' then some (c.toNat - 'a'.toNat + 10)
  else if 'A' ≤ c ∧ c ≤ 'F' then some (c.toNat - 'A'.toNat + 10)
  else none

/-- The number that four hexadecimal digits denote. -/
def hexValue4? (a b c d : Char) : Option Nat := do
  let a ← hexValue? a
  let b ← hexValue? b
  let c ← hexValue? c
  let d ← hexValue? d
  return ((a * 16 + b) * 16 + c) * 16 + d

/-- The character of a letter after a backslash. -/
def simpleEscape? (c : Char) : Option Char :=
  match c with
  | '"' => some '"'
  | '\\' => some '\\'
  | '/' => some '/'
  | 'b' => some '\x08'
  | 'f' => some '\x0c'
  | 'n' => some '\n'
  | 'r' => some '\r'
  | 't' => some '\t'
  | _ => none

/-- The character that two surrogates denote. -/
def joinSurrogates? (high low : Nat) : Option Char :=
  if 0xd800 ≤ high ∧ high < 0xdc00 ∧ 0xdc00 ≤ low ∧ low < 0xe000 then
    some (Char.ofNat (0x10000 + (high - 0xd800) * 0x400 + (low - 0xdc00)))
  else none

/-- The character of a code unit that stands alone. -/
def loneUnit (n : Nat) : Char := if 0xd800 ≤ n ∧ n < 0xe000 then '\ufffd' else Char.ofNat n

/-- The string up to its closing quote, and the text after it. -/
def readString : Text → Option (Text × Text)
  | [] => none
  | '"' :: rest => some ([], rest)
  | '\\' :: 'u' :: a :: b :: c :: d :: '\\' :: 'u' :: e :: f :: g :: h :: rest =>
    (hexValue4? a b c d).bind fun first =>
      match (hexValue4? e f g h).bind (joinSurrogates? first) with
      | some joined => (readString rest).map fun (s, rest) => (joined :: s, rest)
      | none => (readString ('\\' :: 'u' :: e :: f :: g :: h :: rest)).map fun (s, rest) =>
          (loneUnit first :: s, rest)
  | '\\' :: 'u' :: a :: b :: c :: d :: rest =>
    (hexValue4? a b c d).bind fun n =>
      (readString rest).map fun (s, rest) => (loneUnit n :: s, rest)
  | '\\' :: c :: rest =>
    (simpleEscape? c).bind fun c => (readString rest).map fun (s, rest) => (c :: s, rest)
  | c :: rest =>
    if c.toNat < 0x20 then none
    else (readString rest).map fun (s, rest) => (c :: s, rest)
termination_by t => t.length

/-- ASCII digits. -/
def isAsciiDigit (c : Char) : Bool := '0' ≤ c && c ≤ '9'

/-- The digits of the whole part: a zero stands alone. -/
def wholePart? (t : Text) : Option (Text × Text) :=
  match t with
  | '0' :: rest => some (['0'], rest)
  | _ =>
    let digits := t.takeWhile isAsciiDigit
    if digits.isEmpty then none else some (digits, t.dropWhile isAsciiDigit)

/-- The digits after a point, if a point and a digit follow. -/
def fractionPart (t : Text) : Option Text × Text :=
  match t with
  | '.' :: rest =>
    let digits := rest.takeWhile isAsciiDigit
    if digits.isEmpty then (none, t) else (some digits, rest.dropWhile isAsciiDigit)
  | _ => (none, t)

/-- The exponent, if its mark and a digit follow. -/
def exponentPart (t : Text) : Option Int × Text :=
  match t with
  | c :: rest =>
    if c = 'e' ∨ c = 'E' then
      let (negative, body) := Text.splitSign rest
      let digits := body.takeWhile isAsciiDigit
      if digits.isEmpty then (none, t)
      else
        let n : Int := Text.digitsValue digits
        (some (if negative then -n else n), body.dropWhile isAsciiDigit)
    else (none, t)
  | [] => (none, t)

/-- A number without its sign. -/
def readUnsigned (negative : Bool) (t : Text) : Except JsonError (Json × Text) :=
  match wholePart? t with
  | none => .error .malformed
  | some (whole, rest) =>
    let (fraction, rest) := fractionPart rest
    let (exponent, rest) := exponentPart rest
    if fraction.isNone && exponent.isNone then
      match Text.readDigits whole with
      | .ok n => .ok (.int (if negative then -n else n), rest)
      | .error e => .error (.numeral e)
    else
      let x := Decimal.Numeral.value ⟨whole, fraction.getD [], exponent.getD 0, true⟩
      .ok (.float (if negative then -x else x), rest)

/-- A literal word or a number. -/
def readScalar (t : Text) : Except JsonError (Json × Text) :=
  match t with
  | 'n' :: 'u' :: 'l' :: 'l' :: rest => .ok (.null, rest)
  | 't' :: 'r' :: 'u' :: 'e' :: rest => .ok (.bool true, rest)
  | 'f' :: 'a' :: 'l' :: 's' :: 'e' :: rest => .ok (.bool false, rest)
  | 'N' :: 'a' :: 'N' :: rest => .ok (.float (0 / 0), rest)
  | 'I' :: 'n' :: 'f' :: 'i' :: 'n' :: 'i' :: 't' :: 'y' :: rest => .ok (.float (1 / 0), rest)
  | '-' :: 'I' :: 'n' :: 'f' :: 'i' :: 'n' :: 'i' :: 't' :: 'y' :: rest =>
    .ok (.float (-1 / 0), rest)
  | '-' :: rest => readUnsigned true rest
  | _ => readUnsigned false t

/-- The text without leading white space. -/
def skipSpace (t : Text) : Text := t.dropWhile isSpace

mutual

/-- A value at the start of a text, with at most `fuel` nested steps. -/
def readValue : Nat → Text → Except JsonError (Json × Text)
  | 0, _ => .error .malformed
  | fuel + 1, t =>
    match t with
    | '"' :: rest =>
      match readString rest with
      | some (s, rest) => .ok (.str s, rest)
      | none => .error .malformed
    | '[' :: rest =>
      match skipSpace rest with
      | ']' :: rest => .ok (.arr [], rest)
      | rest => (readItems fuel rest).map fun (items, rest) => (.arr items, rest)
    | '\x7b' :: rest =>
      match skipSpace rest with
      | '\x7d' :: rest => .ok (.obj [], rest)
      | rest => (readFields fuel [] rest).map fun (fields, rest) => (.obj fields, rest)
    | _ => readScalar t

/-- The items of an array up to its closing bracket. -/
def readItems : Nat → Text → Except JsonError (List Json × Text)
  | 0, _ => .error .malformed
  | fuel + 1, t =>
    match readValue fuel t with
    | .error e => .error e
    | .ok (v, rest) =>
      match skipSpace rest with
      | ',' :: rest =>
        (readItems fuel (skipSpace rest)).map fun (items, rest) => (v :: items, rest)
      | ']' :: rest => .ok ([v], rest)
      | _ => .error .malformed

/-- The fields of an object up to its closing brace, after the fields already read. -/
def readFields : Nat → List (Text × Json) → Text → Except JsonError (List (Text × Json) × Text)
  | 0, _, _ => .error .malformed
  | fuel + 1, before, t =>
    match t with
    | '"' :: rest =>
      match readString rest with
      | none => .error .malformed
      | some (name, rest) =>
        match skipSpace rest with
        | ':' :: rest =>
          match readValue fuel (skipSpace rest) with
          | .error e => .error e
          | .ok (v, rest) =>
            match skipSpace rest with
            | ',' :: rest => readFields fuel (setField name v before) (skipSpace rest)
            | '\x7d' :: rest => .ok (setField name v before, rest)
            | _ => .error .malformed
        | _ => .error .malformed
    | _ => .error .malformed

end

/-- Reads a text that consists of one value. -/
def read (t : Text) : Except JsonError Json :=
  match readValue (t.length + 1) (skipSpace t) with
  | .error e => .error e
  | .ok (v, rest) => if (skipSpace rest).isEmpty then .ok v else .error .malformed

end Json

end DrawFormula
