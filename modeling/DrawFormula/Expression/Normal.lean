import DrawFormula.Expression.Block
import DrawFormula.Expression.Lexeme
import DrawFormula.Formula.Numerals
import DrawFormula.Text.Halfwidth

/-! # Normal form of expressions

An expression is normalised by half-width forms, by leaving out blanks, by writing numerals in
digits, and by spelling every element with its canonical name.  The condition of a conditional
block is left as it is.
-/
namespace DrawFormula.Expression

/-- The text with canonical element names. -/
def canonical (t : Text) : Text := (Lexeme.scan t).flatMap Lexeme.text

/-- The normal form of a piece. -/
def Piece.normalize : Piece → Text
  | plain t => canonical t
  | block b => Block.text ⟨b.condition, canonical b.yes, canonical b.no⟩

/-- The normal form of an expression. -/
def normalize (t : Text) : Text :=
  (Piece.ofText (Formula.digitize (Text.squeeze (Text.halfwidth t)))).flatMap Piece.normalize

/-- A piece with both outcomes of a block added up. -/
def Piece.bothOutcomes : Piece → Text
  | plain t => t
  | block b => b.yes ++ '+' :: b.no

/-- The distinct elements of an expression in order of first appearance. -/
def elements (t : Text) : List Element :=
  ((Lexeme.scan ((Piece.ofText (normalize t)).flatMap Piece.bothOutcomes)).filterMap
    Lexeme.element?).foldl (fun found e => if e ∈ found then found else found ++ [e]) []

end DrawFormula.Expression
