import DrawFormula.Text.Numeral

/-! # Sums

A sum is built from runs of decimal digits by plus signs and parentheses, with blanks between the
tokens.  Its value is found in one pass over the tokens that keeps the sums of the open
parentheses on a stack.
-/
namespace DrawFormula.Expression

/-- A token of a sum. -/
inductive Token where
  | number (digits : Text)
  | plus
  | openParen
  | closeParen
deriving Repr, DecidableEq

namespace Token

/-- Puts a digit before the number that the tokens begin with. -/
def consDigit (c : Char) : List Token → List Token
  | number ds :: rest => number (c :: ds) :: rest
  | rest => number [c] :: rest

/-- The tokens of a text; a character of no token separates its neighbours. -/
def ofText : Text → List Token
  | [] => []
  | c :: rest =>
    if Text.isDigit c then
      if rest.head?.any Text.isDigit then consDigit c (ofText rest)
      else number [c] :: ofText rest
    else if c = '+' then plus :: ofText rest
    else if c = '(' then openParen :: ofText rest
    else if c = ')' then closeParen :: ofText rest
    else ofText rest

end Token

/-- Why a text has no sum. -/
inductive SumError where
  /-- The text is no sum. -/
  | malformed (text : Text)
  /-- A number cannot be read. -/
  | numeral (e : NumeralError)
deriving Repr, DecidableEq

/-- Adds up the tokens.  `outer` holds the sums before the open parentheses and `total` the sum
so far within the innermost one; a term is due if `expecting`.  `none` where the tokens are no
sum. -/
def addUp : List Nat → Nat → Bool → List Token → Except (Option NumeralError) Nat
  | [], total, false, [] => .ok total
  | _, _, _, [] => .error none
  | outer, total, true, .number ds :: rest =>
    match Text.readDigits ds with
    | .ok n => addUp outer (total + n) false rest
    | .error e => .error (some e)
  | outer, total, true, .openParen :: rest => addUp (total :: outer) 0 true rest
  | outer, total, false, .plus :: rest => addUp outer total true rest
  | before :: outer, total, false, .closeParen :: rest => addUp outer (before + total) false rest
  | _, _, _, _ => .error none

/-- Characters that may occur in a sum. -/
def inSum (c : Char) : Bool :=
  Text.isDigit c || c = '+' || c = '(' || c = ')' || Text.isBlank c

/-- The value of a sum. -/
def sumOf (t : Text) : Except SumError Nat :=
  if t.isEmpty || !t.all inSum then .error (.malformed t)
  else match addUp [] 0 true (Token.ofText t) with
    | .ok n => .ok n
    | .error none => .error (.malformed t)
    | .error (some e) => .error (.numeral e)

end DrawFormula.Expression
