import DrawFormula.Formula.Batch

/-! # Display numbers

Lines of formulas are shown with a bracketed index of three digits.  Numbers are added to lines
that have none, removed, or given anew.
-/
namespace DrawFormula.Numbering

/-- The bracketed index of a place counted from 0. -/
def indexText (place : Nat) : Text := '[' :: (Text.padded 3 (place + 1) ++ [']'])

/-- The lines that are not blank, without the blanks around them. -/
def properLines (t : Text) : List Text :=
  ((Text.splitLines t).map Text.strip).filter fun line => !line.isEmpty

/-- The line with its index unless it has one. -/
def addIndex (place : Nat) (line : Text) : Text :=
  if (Formula.afterIndex? line).isSome then line else indexText place ++ line

/-- The proper lines of a text, each with an index. -/
def add (t : Text) : Text := Text.joinLines ((properLines t).mapIdx addIndex)

/-- The lines of a text without their indexes. -/
def remove (t : Text) : Text := Text.joinLines ((Text.splitLines t).map Batch.dropIndex)

/-- The lines that are not blank, numbered from 1 in place of the indexes they had. -/
def renew (lines : List Text) : Text :=
  Text.joinLines (((lines.map Batch.cleanLine).filter fun line => !line.isEmpty).mapIdx
    fun place line => indexText place ++ ' ' :: line)

end DrawFormula.Numbering
