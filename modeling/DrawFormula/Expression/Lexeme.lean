import DrawFormula.Element.Spelling

/-! # Names in expressions

An expression is read from left to right; at each place the longest spelling of an element is one
lexeme, and every other character is a lexeme of its own.
-/
namespace DrawFormula.Expression

/-- A spelled element or a single character. -/
inductive Lexeme where
  | name (e : Element)
  | char (c : Char)
deriving Repr, DecidableEq

namespace Lexeme

/-- The lexemes of a text after the character `before`, its first `skip` characters belonging to
a spelling already read. -/
def scanFrom : Option Char → Nat → Text → List Lexeme
  | _, _, [] => []
  | _, skip + 1, c :: rest => scanFrom (some c) skip rest
  | before, 0, c :: rest =>
    match Element.leading? before (c :: rest) with
    | some (spelling, e) => name e :: scanFrom (some c) (spelling.length - 1) rest
    | none => char c :: scanFrom (some c) 0 rest

/-- The lexemes of a text. -/
def scan (t : Text) : List Lexeme := scanFrom none 0 t

/-- The written form with canonical names. -/
def text : Lexeme → Text
  | name e => e.name
  | char c => [c]

/-- The element of a lexeme. -/
def element? : Lexeme → Option Element
  | name e => some e
  | char _ => none

end Lexeme

end DrawFormula.Expression
