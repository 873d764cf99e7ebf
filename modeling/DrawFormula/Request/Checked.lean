import DrawFormula.Decimal.Reading
import DrawFormula.Json.Basic

/-! # Checked values

A loose JSON value is checked against what is asked for.  Every problem is reported with the path
to the value at fault, so that checks of several values collect the problems of all of them.
Numbers are taken from texts and from booleans too, and integers from numbers without a fraction.
-/
namespace DrawFormula

/-- What is wrong with a value. -/
inductive ProblemKind where
  | missing
  | notText
  | notInteger
  | integerText
  | integerSize
  | fraction
  | notFinite
  | notNumber
  | numberText
  | tooSmall
  | tooLarge
  | notLiteral
  | notMember
  | notList
  | notRecord
  /-- Like `notRecord`, where a record may also be given by its attributes. -/
  | noAttributes
  | noTag
  | unknownTag
  | notJson
deriving Repr, DecidableEq

/-- The word for a kind of problem. -/
def ProblemKind.name : ProblemKind → String
  | missing => "missing"
  | notText => "string_type"
  | notInteger => "int_type"
  | integerText => "int_parsing"
  | integerSize => "int_parsing_size"
  | fraction => "int_from_float"
  | notFinite => "finite_number"
  | notNumber => "float_type"
  | numberText => "float_parsing"
  | tooSmall => "greater_than_equal"
  | tooLarge => "less_than_equal"
  | notLiteral => "literal_error"
  | notMember => "enum"
  | notList => "list_type"
  | notRecord => "model_type"
  | noAttributes => "model_attributes_type"
  | noTag => "union_tag_not_found"
  | unknownTag => "union_tag_invalid"
  | notJson => "json_invalid"

/-- A problem with the value at a path. -/
structure Problem where
  path : List Text
  kind : ProblemKind
deriving Repr, DecidableEq

/-- Whether a problem comes no later than another: paths are ordered step by step, and problems of
one path by their words. -/
def Problem.le (p q : Problem) : Bool :=
  if p.path = q.path then decide (p.kind.name ≤ q.kind.name) else !decide (q.path < p.path)

/-- The JSON form of problems, in order. -/
def Problem.listJson (ps : List Problem) : Json :=
  .arr ((ps.mergeSort le).map fun p => .arr [.arr (p.path.map .str), .lit p.kind.name])

/-- A value or all problems that it has. -/
inductive Checked (α : Type) where
  | ok (a : α)
  | bad (problems : List Problem)

namespace Checked

variable {α β : Type}

/-- The value changed by `f`. -/
def map (f : α → β) : Checked α → Checked β
  | ok a => ok (f a)
  | bad ps => bad ps

/-- A function's value at a value, or the problems of both. -/
def apply : Checked (α → β) → Checked α → Checked β
  | ok f, ok a => ok (f a)
  | ok _, bad ps => bad ps
  | bad ps, ok _ => bad ps
  | bad ps, bad qs => bad (ps ++ qs)

instance : Applicative Checked where
  pure := ok
  seq f a := apply f (a ())

/-- Goes on with the value. -/
def andThen (c : Checked α) (f : α → Checked β) : Checked β :=
  match c with
  | ok a => f a
  | bad ps => bad ps

/-- A problem with the value itself. -/
def problem (kind : ProblemKind) : Checked α := bad [⟨[], kind⟩]

/-- The problems of a value that is reached by a further step. -/
def under (step : Text) : Checked α → Checked α
  | ok a => ok a
  | bad ps => bad (ps.map fun p => { p with path := step :: p.path })

/-- All values, or the problems of all. -/
def all : List (Checked α) → Checked (List α)
  | [] => ok []
  | c :: rest => (c.map List.cons).apply (all rest)

/-- A text. -/
def text : Json → Checked Text
  | .str s => .ok s
  | _ => problem .notText

/-- Whether a text is a run of ASCII digits. -/
def isDigits (t : Text) : Bool := !t.isEmpty && t.all fun c => '0' ≤ c && c ≤ '9'

/-- The integer of a sign and digits. -/
def signedDigits? (t : Text) : Option Int :=
  let (negative, digits) := Text.splitSign t
  if isDigits digits then
    let n : Int := Text.digitsValue digits
    some (if negative then -n else n)
  else none

/-- From this length on a numeral is read as a long one. -/
def longNumeral : Nat := 19

/-- The integer of a numeral as it is written.  Underscores may stand behind the first digit of a long
one. -/
def writtenInteger? (t : Text) : Option Int :=
  if t.length < longNumeral then signedDigits? t
  else if (Text.splitSign t).2.head? = some '_' then none
  else signedDigits? (t.filter (· ≠ '_'))

/-- A numeral without the underscores, unless one is at an end or two stand together. -/
def ungrouped? (t : Text) : Option Text :=
  if t.head? = some '_' || t.getLast? = some '_' || Text.contains ['_', '_'] t then none
  else some (t.filter (· ≠ '_'))

/-- What follows zeros: the rest from the first other digit or minus sign on.  Underscores are passed
over like zeros, but the character before a point is kept, and so is the last one of all. -/
def afterZeros? (last : Char) : Text → Option Text
  | [] => some [last]
  | c :: rest =>
    if c = '0' || c = '_' then afterZeros? c rest
    else if ('1' ≤ c && c ≤ '9') || c = '-' then some (c :: rest)
    else if c = '.' then some (last :: c :: rest)
    else none

/-- A numeral without zeros in front; none if it begins neither with a digit nor with a minus sign. -/
def withoutZeros? : Text → Option Text
  | [] => none
  | c :: rest =>
    if c = '0' then afterZeros? c rest
    else if ('1' ≤ c && c ≤ '9') || c = '-' then some (c :: rest)
    else none

/-- A numeral without a fraction of zeros. -/
def withoutFraction (t : Text) : Text :=
  let whole := t.takeWhile (· ≠ '.')
  let fraction := t.drop (whole.length + 1)
  if !fraction.isEmpty && fraction.all (· = '0') then whole else t

/-- The integer that a text denotes: as it is written, or else with zeros in front, underscores and a
fraction of zeros passed over. -/
def integerOfText? (t : Text) : Option Int :=
  let body := Text.trimBy Text.isNumeralBlank t
  match writtenInteger? body with
  | some n => some n
  | none => ((withoutZeros? body).bind fun t => ungrouped? (withoutFraction t)).bind signedDigits?

/-- An integer. -/
def int : Json → Checked Int
  | .int i => .ok i
  | .bool b => .ok (if b then 1 else 0)
  | .float x =>
    if x.isNaN || x.isInf then problem .notFinite
    else if !Decimal.isIntegral x then problem .fraction
    else if x.abs < 9223372036854775808.0 then .ok (Decimal.truncate x)
    else problem .integerSize
  | .str s => match integerOfText? s with
    | some i =>
      if Text.digitLimit < (Text.ofNat i.natAbs).length then problem .integerSize else .ok i
    | none => problem .integerText
  | _ => problem .notInteger

/-- A value that may be null. -/
def optional (read : Json → Checked α) : Json → Checked (Option α)
  | .null => .ok none
  | v => (read v).map some

/-- The value if it is from `low` on, and up to `high` where one is given. -/
def within (low : Int) (high : Option Int) (i : Int) : Checked Int :=
  if high.any fun h => h < i then problem .tooLarge
  else if i < low then problem .tooSmall
  else .ok i

/-- An integer from `low` on, and up to `high` where one is given. -/
def intWithin (low : Int) (high : Option Int) (v : Json) : Checked Int :=
  (int v).andThen (within low high)

/-- The number that a text denotes without underscores and without blanks around it. -/
def writtenNumber? (t : Text) : Option Float :=
  if t.all (fun c => c.toNat < 128 && c ≠ '_') && Text.trimBy Text.isNumeralBlank t = t then
    Decimal.read? t
  else none

/-- The number that a text denotes; if there are underscores, then no blanks around it. -/
def numberOfText? (t : Text) : Option Float :=
  match writtenNumber? (Text.trimBy Text.isNumeralBlank t) with
  | some x => some x
  | none => (ungrouped? t).bind writtenNumber?

/-- A number.  An integer beyond every finite number is none. -/
def number : Json → Checked Float
  | .int i => if (Float.ofInt i).isInf then problem .notNumber else .ok (Float.ofInt i)
  | .bool b => .ok (if b then 1 else 0)
  | .float x => .ok x
  | .str s => match numberOfText? s with
    | some x => .ok x
    | none => problem .numberText
  | _ => problem .notNumber

/-- A number between bounds. -/
def numberWithin (low high : Float) (v : Json) : Checked Float :=
  (number v).andThen fun x =>
    if high < x then problem .tooLarge else if x < low then problem .tooSmall else .ok x

/-- A text that stands for a value, or the kind of problem if it stands for none. -/
def word (kind : ProblemKind) (read : Text → Option α) : Json → Checked α
  | .str s => match read s with
    | some a => .ok a
    | none => problem kind
  | _ => problem kind

/-- A list of values. -/
def list (read : Json → Checked α) : Json → Checked (List α)
  | .arr items => all (items.mapIdx fun i v => (read v).under (Text.ofNat i))
  | _ => problem .notList

/-- The fields of a record. -/
def fields (kind : ProblemKind) : Json → Checked (List (Text × Json))
  | .obj fields => .ok fields
  | _ => problem kind

/-- The value of a field. -/
def value? (fields : List (Text × Json)) (name : String) : Option Json :=
  (fields.find? fun f => f.1 = name.toList).map (·.2)

/-- A field that has to be there. -/
def required (fields : List (Text × Json)) (name : String) (read : Json → Checked α) : Checked α :=
  (match value? fields name with
    | some v => read v
    | none => problem .missing).under name.toList

/-- A field that has a default value. -/
def field (fields : List (Text × Json)) (name : String) (default : α) (read : Json → Checked α) :
    Checked α :=
  match value? fields name with
  | some v => (read v).under name.toList
  | none => .ok default

end Checked

end DrawFormula
