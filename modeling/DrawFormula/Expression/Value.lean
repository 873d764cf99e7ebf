import DrawFormula.Element.Cache
import DrawFormula.Expression.Condition
import DrawFormula.Expression.Lexeme
import DrawFormula.Expression.Sum

/-! # Values of expressions

For one draw an expression is a sum: conditional blocks are resolved, every element is replaced by
its value, and every operator counts as plus.  An expression that names no element where it has to,
or that is no sum in the end, has the value 0.  Only a number with too many digits is an error.
-/
namespace DrawFormula.Expression

/-- Operators that count as plus. -/
def isOperator (c : Char) : Bool :=
  c = '-' || c = '*' || c = '×' || c = '/' || c = '÷' || c = '%'

/-- Ideographs, which stand in a sum only as part of an element's name. -/
def isIdeograph (c : Char) : Bool := '\u4e00' ≤ c && c ≤ '\u9fff'

/-- What a character contributes to the sum. -/
def substituteChar (c : Char) : Text :=
  if isOperator c then ['+'] else if Text.isBlank c then [] else [c]

/-- The lexemes with each element replaced by its value, looked up in order. -/
def substituteAll (d : Draw) (sorted : Bool) : List Lexeme → Element.Cache → Text × Element.Cache
  | [], cache => ([], cache)
  | .name e :: rest, cache =>
    let (v, cache) := e.lookup d sorted cache
    let (t, cache) := substituteAll d sorted rest cache
    (Text.ofInt v ++ t, cache)
  | .char c :: rest, cache =>
    let (t, cache) := substituteAll d sorted rest cache
    (substituteChar c ++ t, cache)

/-- The ideographs of a text that name no element. -/
def unknownIn (lexemes : List Lexeme) : Text :=
  lexemes.filterMap fun
    | .name _ => none
    | .char c => if isIdeograph c then some c else none

/-- Repeated plus signs become one. -/
def mergePlus : Text → Text
  | [] => []
  | c :: rest => if c = '+' ∧ rest.head? = some '+' then mergePlus rest else c :: mergePlus rest

/-- The text without the plus signs that join nothing. -/
def collapsePlus (t : Text) : Text :=
  Text.trimBy (· = '+')
    (Text.replaceAll ['+', ')'] [')'] (Text.replaceAll ['(', '+'] ['('] (mergePlus t)))

/-- An ideograph that names no element is left in an expression. -/
structure UnknownElement where
  name : Text
deriving Repr, DecidableEq

/-- The wording of the error. -/
def UnknownElement.message (e : UnknownElement) : String :=
  "unknown element: " ++ String.ofList (Text.quoted e.name)

/-- The wording of a failed sum. -/
def SumError.message : SumError → String
  | .malformed t => "invalid expression after substitution: " ++ String.ofList (Text.quoted t)
  | .numeral e => e.message

/-- The sum that an expression stands for, for one draw. -/
def substitute (expression : Text) (d : Draw) (sorted : Bool) (cache : Element.Cache) :
    Except UnknownElement Text × Element.Cache :=
  let lexemes := Lexeme.scan (resolve d.special expression)
  let (t, cache) := substituteAll d sorted lexemes cache
  match unknownIn lexemes with
  | [] => (.ok (collapsePlus t), cache)
  | unknown => (.error ⟨unknown⟩, cache)

/-- The value of a sum, 0 where the text is none. -/
def sumOrZero (t : Text) : Except NumeralError Int :=
  match sumOf t with
  | .ok n => .ok n
  | .error (.malformed _) => .ok 0
  | .error (.numeral e) => .error e

/-- The value of an expression for one draw. -/
def evaluate (expression : Text) (d : Draw) (sorted : Bool) (cache : Element.Cache) :
    Except NumeralError Int × Element.Cache :=
  match substitute expression d sorted cache with
  | (.ok t, cache) => (sumOrZero t, cache)
  | (.error _, cache) => (.ok 0, cache)

end DrawFormula.Expression
