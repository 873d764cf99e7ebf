import DrawFormula.Text.Basic

/-! # Conditional blocks

A conditional block is a condition, a question mark, a text for yes, a colon and a text for no,
all between braces.  None of the three is empty, no brace stands within a block, the condition
holds no question mark and the text for yes no colon.  A text is cut into blocks and the plain
text between them, from left to right.
-/
namespace DrawFormula.Expression

/-- A conditional block. -/
structure Block where
  condition : Text
  yes : Text
  no : Text
deriving Repr, DecidableEq

namespace Block

/-- How many characters the block takes. -/
def width (b : Block) : Nat := b.condition.length + b.yes.length + b.no.length + 4

/-- The written form. -/
def text (b : Block) : Text :=
  '{' :: (b.condition ++ '?' :: (b.yes ++ ':' :: (b.no ++ ['}'])))

/-- Characters other than braces and `stop`. -/
def inField (stop c : Char) : Bool := c ≠ '{' && c ≠ '}' && c ≠ stop

/-- A field that is not empty and ends before `stop`, and the text after `stop`. -/
def field? (stop : Char) (t : Text) : Option (Text × Text) :=
  match t.takeWhile (inField stop), t.dropWhile (inField stop) with
  | c :: cs, d :: rest => if d = stop then some (c :: cs, rest) else none
  | _, _ => none

/-- The block at the start of a text. -/
def leading? : Text → Option Block
  | '{' :: rest =>
    (field? '?' rest).bind fun (condition, rest) =>
    (field? ':' rest).bind fun (yes, rest) =>
    (field? '}' rest).map fun (no, _) => ⟨condition, yes, no⟩
  | _ => none

end Block

/-- A part of a text. -/
inductive Piece where
  | plain (t : Text)
  | block (b : Block)
deriving Repr, DecidableEq

namespace Piece

/-- Puts a plain character before the pieces. -/
def consPlain (c : Char) : List Piece → List Piece
  | plain t :: rest => plain (c :: t) :: rest
  | rest => plain [c] :: rest

/-- The pieces of a text whose first `skip` characters belong to a block already read. -/
def ofTextFrom : Nat → Text → List Piece
  | _, [] => []
  | skip + 1, _ :: rest => ofTextFrom skip rest
  | 0, c :: rest =>
    match Block.leading? (c :: rest) with
    | some b => block b :: ofTextFrom (b.width - 1) rest
    | none => consPlain c (ofTextFrom 0 rest)

/-- The blocks of a text and the plain text between them. -/
def ofText (t : Text) : List Piece := ofTextFrom 0 t

end Piece

end DrawFormula.Expression
