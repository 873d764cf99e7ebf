import DrawFormula.Draw
import DrawFormula.Expression.Block

/-! # Conditions on the special number

A condition compares the special number, one of its digits or the sum of its two digits.  A
conditional block is resolved by the condition's outcome; a condition without a meaning counts as
false.  Resolving a block can complete a block around it, so blocks are resolved until none is
left.
-/
namespace DrawFormula.Expression

/-- What a condition looks at. -/
inductive Measure where
  | number | tail | head | digitSum
deriving Repr, DecidableEq

/-- What a condition asks. -/
inductive Question where
  | large | small | odd | even
deriving Repr, DecidableEq

/-- A condition on the special number. -/
structure Condition where
  measure : Measure
  question : Question
deriving Repr, DecidableEq

namespace Measure

/-- The measure of a number. -/
def value (n : Int) : Measure → Int
  | number => n
  | tail => n.fmod 10
  | head => n.fdiv 10
  | digitSum => n.fdiv 10 + n.fmod 10

/-- The least value that counts as large. -/
def leastLarge : Measure → Int
  | number => 25
  | tail => 5
  | head => 2
  | digitSum => 7

/-- The word for a measure. -/
def letter : Measure → Char
  | number => '码'
  | tail => '尾'
  | head => '头'
  | digitSum => '合'

end Measure

/-- The word for a question. -/
def Question.letter : Question → Char
  | .large => '大'
  | .small => '小'
  | .odd => '单'
  | .even => '双'

namespace Condition

/-- Every condition. -/
def all : List Condition :=
  [Measure.number, .tail, .head, .digitSum].flatMap fun m =>
    [Question.large, .small, .odd, .even].map fun q => ⟨m, q⟩

/-- The name of a condition. -/
def name (c : Condition) : Text := ['特', c.measure.letter, c.question.letter]

/-- The condition that a text names, blanks around it aside. -/
def ofText? (t : Text) : Option Condition := all.find? fun c => c.name = Text.strip t

/-- Whether a special number meets the condition. -/
def holds (c : Condition) (special : Int) : Bool :=
  let v := c.measure.value special
  match c.question with
  | .large => c.measure.leastLarge ≤ v
  | .small => v < c.measure.leastLarge
  | .odd => v.fmod 2 = 1
  | .even => v.fmod 2 = 0

end Condition

/-- Whether a special number meets the condition that a text names. -/
def conditionHolds (t : Text) (special : Int) : Bool :=
  match Condition.ofText? t with
  | some c => c.holds special
  | none => false

/-- The text of a piece once its block is resolved. -/
def Piece.resolve (special : Int) : Piece → Text
  | plain t => t
  | block b => if conditionHolds b.condition special then b.yes else b.no

/-- The text with each of its blocks resolved. -/
def resolveOnce (special : Int) (t : Text) : Text := (Piece.ofText t).flatMap (Piece.resolve special)

/-- Resolves blocks until none is left, at most `fuel` times. -/
def resolveUpTo (special : Int) : Nat → Text → Text
  | 0, t => t
  | fuel + 1, t =>
    let resolved := resolveOnce special t
    if resolved = t then t else resolveUpTo special fuel resolved

/-- The text without conditional blocks.  Resolving shortens a text that holds a block, so there
are fewer rounds than characters. -/
def resolve (special : Int) (t : Text) : Text := resolveUpTo special t.length t

end DrawFormula.Expression
