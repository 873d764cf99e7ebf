import DrawFormula.ResultType

/-! # Formulas

A formula predicts an attribute of the special number.  It says in which order the ping numbers
are taken, which attribute is predicted, by which expression, which offset is added, over how many
periods it is tested and how far its value is expanded to both sides.
-/
namespace DrawFormula

/-- The order in which a formula takes the ping numbers. -/
inductive Rule where
  /-- Ascending. -/
  | sorted
  /-- In draw order. -/
  | drawn
deriving Repr, DecidableEq

namespace Rule

/-- Both rules. -/
def all : List Rule := [sorted, drawn]

/-- The letter of a rule in formulas. -/
def letter : Rule → Char
  | sorted => 'D'
  | drawn => 'L'

/-- The rule that a letter names. -/
def ofLetter? (c : Char) : Option Rule := all.find? fun r => r.letter = c

end Rule

/-- A formula. -/
structure Formula where
  rule : Rule
  resultType : ResultType
  expression : Text
  offset : Int
  periods : Nat
  left : Int
  right : Int
deriving Repr, DecidableEq

namespace Formula

/-- The number of periods of a formula that names none. -/
def defaultPeriods : Nat := 15

/-- A width with its mark, nothing for a width of 0. -/
def widthText (mark : Char) (width : Int) : Text :=
  if width = 0 then [] else mark :: Text.ofInt width

/-- The canonical text.  The offset is always written, so that a number at the end of the
expression is never taken for it. -/
def text (f : Formula) : Text :=
  '[' :: f.rule.letter :: (f.resultType.token ++ ']' :: (f.expression ++ Text.ofIntSigned f.offset ++
    '=' :: (Text.ofNat f.periods ++ widthText '左' f.left ++ widthText '右' f.right)))

/-- Whether no number of the formula has too many digits to be written. -/
def isWritable (f : Formula) : Bool :=
  [f.offset, f.periods, f.left, f.right].all Text.isWritable

/-- The canonical text, unless a number has too many digits. -/
def written (f : Formula) : Except NumeralError Text :=
  if f.isWritable then .ok f.text else .error .unwritable

/-- Whether the ping numbers are taken in ascending order. -/
def usesSorted (f : Formula) : Bool := f.rule = .sorted

end Formula

end DrawFormula
