import DrawFormula.Expression.Normal
import DrawFormula.Formula.Basic

/-! # Reading formulas

The text of a formula is a bracket with the letter of its rule and the word of its result type,
then the expression, and then up to four marked numbers: the offset with its sign, the periods
after `=`, and the widths after `左` and `右`.  The expression is the shortest text after which
the marked numbers reach the end.
-/
namespace DrawFormula

/-- A formula with the text it was read from and its place in a batch. -/
structure FormulaLine where
  formula : Formula
  /-- The text without display numbers. -/
  rawText : Text
  /-- The index of the line in the batch. -/
  index : Int
deriving Repr, DecidableEq

/-- The first fault of a formula's text. -/
inductive ParseFault where
  /-- Nothing but blanks and display numbers. -/
  | empty
  /-- No bracket with a rule and a result type before an expression. -/
  | shape
  /-- The letter names no rule. -/
  | unknownRule (letter : Char)
  /-- The word names no result type. -/
  | unknownType (word : Text)
  /-- The expression holds nothing but signs. -/
  | emptyExpression
  /-- The number of periods is 0. -/
  | noPeriods
deriving Repr, DecidableEq

/-- The wording of a fault. -/
def ParseFault.reason : ParseFault → String
  | .empty => "empty formula"
  | .shape => "does not match [RuleType]expression=periods"
  | .unknownRule letter => "unknown rule " ++ String.ofList (Text.quoted [letter])
  | .unknownType word => "unknown result type " ++ String.ofList (Text.quoted word)
  | .emptyExpression => "empty expression"
  | .noPeriods => "periods must be positive"

/-- Why a text is not read as a formula. -/
inductive FormulaError where
  /-- The text is no formula. -/
  | fault (fault : ParseFault)
  /-- A number in the text has too many digits. -/
  | numeral (e : NumeralError)
deriving Repr, DecidableEq

namespace Formula

/-- The text after a bracketed index at its start, blanks before it aside. -/
def afterIndex? (t : Text) : Option Text :=
  match Text.stripLeft t with
  | '[' :: rest =>
    match rest.takeWhile Text.isDigit, rest.dropWhile Text.isDigit with
    | _ :: _, ']' :: rest => some rest
    | _, _ => none
  | _ => none

/-- The text after a plain number at its start, with at most one mark after it. -/
def afterNumber? (t : Text) : Option Text :=
  let t := Text.stripLeft t
  if (t.takeWhile Text.isDigit).isEmpty then none
  else match t.dropWhile Text.isDigit with
    | c :: rest => if c = '.' ∨ c = '、' ∨ c = ')' then some rest else some (c :: rest)
    | [] => some []

/-- The text if it begins with a bracket. -/
def bracketed? (t : Text) : Option Text := if t.head? = some '[' then some t else none

/-- The text without a display number before its first bracket. -/
def stripDisplayNumber (t : Text) : Text :=
  match (afterIndex? t).bind fun rest => bracketed? (Text.stripLeft rest) with
  | some rest => rest
  | none =>
    match (afterNumber? t).bind fun rest => bracketed? (Text.stripLeft rest) with
    | some rest => rest
    | none => t

/-- The marked numbers at the end of a formula, each in digits. -/
structure Suffix where
  /-- The sign and digits of the offset. -/
  offset : Option (Char × Text)
  periods : Option Text
  left : Option Text
  right : Option Text
deriving Repr, DecidableEq

/-- A run of digits after a mark that satisfies `p`, and the text after it. -/
def marked? (p : Char → Bool) : Text → Option ((Char × Text) × Text)
  | [] => none
  | c :: rest =>
    if p c then
      match rest.takeWhile Text.isDigit with
      | [] => none
      | d :: ds => some ((c, d :: ds), rest.dropWhile Text.isDigit)
    else none

/-- A marked number if there is one, and the text after it. -/
def optional (p : Char → Bool) (t : Text) : Option (Char × Text) × Text :=
  match marked? p t with
  | some (number, rest) => (some number, rest)
  | none => (none, t)

/-- The marked numbers that a text consists of. -/
def readSuffix? (t : Text) : Option Suffix :=
  let (offset, t) := optional (fun c => c = '+' || c = '-') t
  let (periods, t) := optional (· = '=') t
  let (left, t) := optional (· = '左') t
  let (right, t) := optional (· = '右') t
  if t.isEmpty then some ⟨offset, periods.map (·.2), left.map (·.2), right.map (·.2)⟩ else none

/-- The shortest text, not empty, after which marked numbers reach the end. -/
def splitSuffix? : Text → Option (Text × Suffix)
  | [] => none
  | c :: rest =>
    match readSuffix? rest with
    | some suffix => some ([c], suffix)
    | none => (splitSuffix? rest).map fun (body, suffix) => (c :: body, suffix)

/-- The parts of a formula's text. -/
structure Parts where
  letter : Char
  typeWord : Text
  expression : Text
  suffix : Suffix
deriving Repr, DecidableEq

/-- ASCII letters. -/
def isLetter (c : Char) : Bool := c.isAlpha

/-- The parts of a text of the shape of a formula. -/
def parts? : Text → Option Parts
  | '[' :: letter :: rest =>
    if isLetter letter then
      match rest.takeWhile (· ≠ ']'), rest.dropWhile (· ≠ ']') with
      | w :: ws, ']' :: body =>
        (splitSuffix? body).map fun (expression, suffix) =>
          ⟨letter, w :: ws, expression, suffix⟩
      | _, _ => none
    else none
  | _ => none

/-- A number in digits, or the value for a missing one. -/
def numberOr (default : Nat) : Option Text → Except NumeralError Nat
  | some digits => Text.readDigits digits
  | none => .ok default

/-- A signed number in digits, 0 for a missing one. -/
def signedNumber : Option (Char × Text) → Except NumeralError Int
  | some (sign, digits) => (Text.readDigits digits).map fun n => if sign = '-' then -n else n
  | none => .ok 0

/-- The numbers of a formula whose other parts are known. -/
def withNumbers (rule : Rule) (resultType : ResultType) (expression : Text) (s : Suffix) :
    Except FormulaError Formula := do
  let periods ← (numberOr defaultPeriods s.periods).mapError .numeral
  if periods = 0 then throw (.fault .noPeriods)
  let offset ← (signedNumber s.offset).mapError .numeral
  let left ← (numberOr 0 s.left).mapError .numeral
  let right ← (numberOr 0 s.right).mapError .numeral
  return ⟨rule, resultType, expression, offset, periods, left, right⟩

/-- The formula of a compact text. -/
def ofCompact (t : Text) : Except FormulaError Formula :=
  if t.isEmpty then .error (.fault .empty)
  else match parts? t with
    | none => .error (.fault .shape)
    | some p =>
      let letter := p.letter.toUpper
      match Rule.ofLetter? letter with
      | none => .error (.fault (.unknownRule letter))
      | some rule =>
        match ResultType.ofToken? p.typeWord with
        | none => .error (.fault (.unknownType p.typeWord))
        | some resultType =>
          let expression := Expression.normalize p.expression
          if expression.all fun c => c = '+' || c = '-' then .error (.fault .emptyExpression)
          else withNumbers rule resultType expression p.suffix

/-- The text that a formula is read from: half-width forms without display numbers. -/
def rawText (t : Text) : Text := stripDisplayNumber (Text.strip (Text.halfwidth t))

/-- Reads one formula. -/
def read (t : Text) : Except FormulaError Formula :=
  ofCompact (digitize (Text.squeeze (rawText t)))

/-- Reads one formula with its place in a batch. -/
def readLine (t : Text) (index : Int) : Except FormulaError FormulaLine :=
  (read t).map fun f => ⟨f, rawText t, index⟩

/-- The formula of a text, if it is one; a number with too many digits is still an error. -/
def tryRead (t : Text) : Except NumeralError (Option Formula) :=
  match read t with
  | .ok f => .ok (some f)
  | .error (.fault _) => .ok none
  | .error (.numeral e) => .error e

end Formula

end DrawFormula
