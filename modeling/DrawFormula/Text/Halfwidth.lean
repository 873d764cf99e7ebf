import DrawFormula.Text.Basic

/-! # Half-width forms

Full-width forms of the ASCII characters, lenticular brackets and the ideographic space are
written with their ASCII counterparts.
-/
namespace DrawFormula.Text

/-- The half-width counterpart of a character. -/
def halfwidthChar (c : Char) : Char :=
  if c = '【' then '['
  else if c = '】' then ']'
  else if c = '\u3000' then ' '
  else if 0xff01 ≤ c.toNat ∧ c.toNat ≤ 0xff5e then Char.ofNat (c.toNat - 0xfee0)
  else c

/-- The text in half-width forms. -/
def halfwidth (t : Text) : Text := t.map halfwidthChar

end DrawFormula.Text
