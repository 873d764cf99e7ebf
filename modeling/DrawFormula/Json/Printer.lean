import DrawFormula.Decimal.Shortest
import DrawFormula.Json.Basic

/-! # Writing JSON

The compact form has a space after every comma and colon; the indented form puts each item and
field on its own line, two spaces deeper than what holds it.  Characters beyond ASCII stand for
themselves.
-/
namespace DrawFormula.Json

/-- The written form of a character in a string. -/
def escapeChar (c : Char) : Text :=
  if c = '"' then ['\\', '"']
  else if c = '\\' then ['\\', '\\']
  else if c = '\n' then ['\\', 'n']
  else if c = '\r' then ['\\', 'r']
  else if c = '\t' then ['\\', 't']
  else if c.toNat = 8 then ['\\', 'b']
  else if c.toNat = 12 then ['\\', 'f']
  else if c.toNat < 0x20 then '\\' :: 'u' :: Text.hexadecimal 4 c.toNat
  else [c]

/-- A string between double quotes. -/
def stringText (s : Text) : Text := '"' :: (s.flatMap escapeChar ++ ['"'])

/-- The items joined by a separator. -/
def joinWith (separator : Text) (parts : List Text) : Text := List.intercalate separator parts

mutual

/-- The compact form. -/
def compact : Json → Text
  | .null => "null".toList
  | .bool true => "true".toList
  | .bool false => "false".toList
  | .int i => Text.ofInt i
  | .float x => Decimal.text x
  | .str s => stringText s
  | .arr items => '[' :: (joinWith [',', ' '] (compactItems items) ++ [']'])
  | .obj fields => '\x7b' :: (joinWith [',', ' '] (compactFields fields) ++ ['\x7d'])

/-- The compact forms of items. -/
def compactItems : List Json → List Text
  | [] => []
  | v :: rest => compact v :: compactItems rest

/-- The compact forms of fields. -/
def compactFields : List (Text × Json) → List Text
  | [] => []
  | (name, v) :: rest => (stringText name ++ ':' :: ' ' :: compact v) :: compactFields rest

end

/-- A line break with the indentation of a depth. -/
def breakLine (depth : Nat) : Text := '\n' :: List.replicate (2 * depth) ' '

/-- Parts on lines of their own between an opening and a closing character. -/
def enclose (opening closing : Char) (depth : Nat) (parts : List Text) : Text :=
  if parts.isEmpty then [opening, closing]
  else opening :: (breakLine (depth + 1) ++ joinWith (',' :: breakLine (depth + 1)) parts ++
    breakLine depth ++ [closing])

mutual

/-- The indented form at a depth. -/
def indentedAt (depth : Nat) : Json → Text
  | .arr items => enclose '[' ']' depth (indentedItems (depth + 1) items)
  | .obj fields => enclose '\x7b' '\x7d' depth (indentedFields (depth + 1) fields)
  | .null => "null".toList
  | .bool true => "true".toList
  | .bool false => "false".toList
  | .int i => Text.ofInt i
  | .float x => Decimal.text x
  | .str s => stringText s

/-- The indented forms of items. -/
def indentedItems (depth : Nat) : List Json → List Text
  | [] => []
  | v :: rest => indentedAt depth v :: indentedItems depth rest

/-- The indented forms of fields. -/
def indentedFields (depth : Nat) : List (Text × Json) → List Text
  | [] => []
  | (name, v) :: rest =>
    (stringText name ++ ':' :: ' ' :: indentedAt depth v) :: indentedFields depth rest

end

/-- The indented form. -/
def indented (v : Json) : Text := indentedAt 0 v

end DrawFormula.Json
