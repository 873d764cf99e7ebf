import DrawFormula.Element.Basic

/-! # Spellings of elements

Beside its canonical name an element has shorter and longer spellings.  The table of spellings is
one list; reading a name takes the longest spelling that the text begins with.  A spelling that
begins with a digit is no name right after another digit: `12头` does not end in `2头`.
-/
namespace DrawFormula.Element

/-- The canonical names with their elements. -/
def canonicalSpellings : List (Text × Element) :=
  (all ++ calendar).map fun e => (e.name, e)

/-- Spellings of single elements beside the canonical names. -/
def specialSpellings : List (Text × Element) :=
  [(['特'], special .number), (['特', '码'], special .number),
   (['特', '码', '号'], special .number), (['特', '码', '五', '行'], special .phase),
   (['特', '五', '行'], special .phase), (['特', '肖'], special .zodiac),
   (['特', '码', '肖'], special .zodiac), (['总'], total .whole),
   (['总', '分', '数'], total .whole), (['期'], period .whole), (['期', '尾'], period .tail),
   (['期', '合'], period .digitSum), (['期', '合', '尾'], period .digitSumTail)] ++
  (Attribute.all.drop 1).map fun a => (['特', '码'] ++ a.name, special a)

/-- Spellings of the ping number at a place beside the canonical names; a place digit alone
stands for the ping number where an attribute follows. -/
def pingSpellings (place : Fin 6) : List (Text × Element) :=
  let digit := placeDigit place
  [(['平', digit], ping place .number), (['平', '码', digit], ping place .number),
   (['平', digit, '五', '行'], ping place .phase), (['平', digit, '肖'], ping place .zodiac),
   ([digit, '五', '行'], ping place .phase)] ++
  Attribute.all.map fun a => (digit :: a.name, ping place a)

/-- Every spelling with its element. -/
def spellings : List (Text × Element) :=
  canonicalSpellings ++ specialSpellings ++ (List.finRange 6).flatMap pingSpellings

/-- The spellings of one length. -/
def spellingsOfLength (size : Nat) : List (Text × Element) :=
  spellings.filter fun s => s.1.length = size

/-- Every spelling, the longest ones first; none has more than four characters. -/
def longestFirst : List (Text × Element) :=
  spellingsOfLength 4 ++ spellingsOfLength 3 ++ spellingsOfLength 2 ++ spellingsOfLength 1

/-- The element that a text spells. -/
def ofSpelling? (t : Text) : Option Element := (spellings.find? fun s => s.1 = t).map (·.2)

/-- Whether a digit sign stands before the text and the text begins with one too. -/
def continuesNumeral (before : Option Char) (t : Text) : Bool :=
  before.any Text.isDigitSign && t.head?.any Text.isDigitSign

/-- The longest spelling at the start of a text, given the character before it. -/
def leading? (before : Option Char) (t : Text) : Option (Text × Element) :=
  if continuesNumeral before t then none
  else longestFirst.find? fun s => s.1.isPrefixOf t

end DrawFormula.Element
