import DrawFormula.Decimal.Shortest
import DrawFormula.Json.Basic

/-! # Values in messages

A value inside a message is written with words of its own for what is no text and no number, and
its texts are quoted.  A text that is a whole message part stands there as it is.
-/
namespace DrawFormula.Json

mutual

/-- The written form of a value, its texts quoted. -/
def literal : Json → Text
  | .null => "None".toList
  | .bool true => "True".toList
  | .bool false => "False".toList
  | .int i => Text.ofInt i
  | .float x => Decimal.spelled x
  | .str s => Text.quoted s
  | .arr items => '[' :: (List.intercalate [',', ' '] (itemLiterals items) ++ [']'])
  | .obj fields => '\x7b' :: (List.intercalate [',', ' '] (fieldLiterals fields) ++ ['\x7d'])

/-- The written forms of items. -/
def itemLiterals : List Json → List Text
  | [] => []
  | v :: rest => literal v :: itemLiterals rest

/-- The written forms of fields. -/
def fieldLiterals : List (Text × Json) → List Text
  | [] => []
  | (name, v) :: rest => (Text.quoted name ++ ':' :: ' ' :: literal v) :: fieldLiterals rest

end

/-- The written form of a value; a text is its own one. -/
def plain : Json → Text
  | .str s => s
  | v => literal v

end DrawFormula.Json
