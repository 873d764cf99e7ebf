import DrawFormula.Text.Basic
import DrawFormula.Text.Printable

/-! # Quoted text

Text in messages stands between single quotes, or between double quotes if it holds a single
quote and no double one.  The quote in use and the backslash are escaped by a backslash, and every
character that is not printable is written by its code.
-/
namespace DrawFormula.Text

/-- The last `width` hexadecimal digits of a number, lower case. -/
def hexadecimal : Nat → Nat → Text
  | 0, _ => []
  | width + 1, n => hexadecimal width (n / 16) ++ [Nat.digitChar (n % 16)]

/-- The written form of one character between the quotes `quote`. -/
def quotedChar (quote : Char) (c : Char) : Text :=
  if c = quote ∨ c = '\\' then ['\\', c]
  else if c = '\n' then ['\\', 'n']
  else if c = '\r' then ['\\', 'r']
  else if c = '\t' then ['\\', 't']
  else if isPrintable c then [c]
  else if c.toNat < 0x100 then '\\' :: 'x' :: hexadecimal 2 c.toNat
  else if c.toNat < 0x10000 then '\\' :: 'u' :: hexadecimal 4 c.toNat
  else '\\' :: 'U' :: hexadecimal 8 c.toNat

/-- The text between quotes. -/
def quoted (t : Text) : Text :=
  let quote := if '\'' ∈ t ∧ '"' ∉ t then '"' else '\''
  quote :: (t.flatMap (quotedChar quote) ++ [quote])

end DrawFormula.Text
