import DrawFormula.Text.Digit

/-! # Text as a list of characters

All text of the library is a list of code points, so that scanning is recursion on the list.
This module fixes which characters are blank, where a line ends, and the few list operations that
the scanners share.
-/
namespace DrawFormula

/-- A text, one code point after the other. -/
abbrev Text := List Char

namespace Text

/-- The hash of a text mixes the hashes of its code points. -/
instance : Hashable Text := ⟨fun t => t.foldl (fun h c => mixHash h (hash c.val)) 7⟩

/-- A statement on all characters of a text is decided along the text. -/
instance decidableForallMem (p : Char → Prop) [DecidablePred p] (t : Text) :
    Decidable (∀ c ∈ t, p c) := List.decidableBAll p t

/-- A statement on some character of a text is decided along the text. -/
instance decidableExistsMem (p : Char → Prop) [DecidablePred p] (t : Text) :
    Decidable (∃ c ∈ t, p c) := List.decidableBEx p t

/-- Blank characters: the white space of Unicode and the four information separators. -/
def isBlank (c : Char) : Bool :=
  let n := c.toNat
  (0x09 ≤ n && n ≤ 0x0d) || (0x1c ≤ n && n ≤ 0x20) || n == 0x85 || n == 0xa0 || n == 0x1680 ||
    (0x2000 ≤ n && n ≤ 0x200a) || n == 0x2028 || n == 0x2029 || n == 0x202f || n == 0x205f ||
    n == 0x3000

/-- Characters that end a line; a carriage return and a line feed together end one line. -/
def isLineBreak (c : Char) : Bool :=
  let n := c.toNat
  (0x0a ≤ n && n ≤ 0x0d) || (0x1c ≤ n && n ≤ 0x1e) || n == 0x85 || n == 0x2028 || n == 0x2029

/-- The text without its leading blanks. -/
def stripLeft (t : Text) : Text := t.dropWhile isBlank

/-- The text without its trailing blanks. -/
def stripRight (t : Text) : Text := (t.reverse.dropWhile isBlank).reverse

/-- The text without its leading and trailing blanks. -/
def strip (t : Text) : Text := stripRight (stripLeft t)

/-- The text with every blank left out. -/
def squeeze (t : Text) : Text := t.filter fun c => !isBlank c

/-- The text without leading and trailing characters that satisfy `p`. -/
def trimBy (p : Char → Bool) (t : Text) : Text :=
  ((t.dropWhile p).reverse.dropWhile p).reverse

/-- The lines of a text.  A break at the very end opens no further line. -/
def splitLines : Text → List Text
  | [] => []
  | '\r' :: '\n' :: rest => [] :: splitLines rest
  | c :: rest =>
    if isLineBreak c then [] :: splitLines rest
    else match splitLines rest with
      | [] => [[c]]
      | line :: lines => (c :: line) :: lines

/-- The pieces between the characters that satisfy `p`; there is always at least one. -/
def splitAtAll (p : Char → Bool) : Text → List Text
  | [] => [[]]
  | c :: rest =>
    if p c then [] :: splitAtAll p rest
    else match splitAtAll p rest with
      | [] => [[c]]
      | piece :: pieces => (c :: piece) :: pieces

/-- The text with a line feed in the place of a carriage return, or of one with a line feed. -/
def withLineFeeds : Text → Text
  | '\r' :: '\n' :: rest => '\n' :: withLineFeeds rest
  | '\r' :: rest => '\n' :: withLineFeeds rest
  | c :: rest => c :: withLineFeeds rest
  | [] => []

/-- The lines with a line feed between neighbours. -/
def joinLines (lines : List Text) : Text := List.intercalate ['\n'] lines

/-- `old` is replaced by `new` from left to right; `skip` characters are already replaced. -/
def replaceFrom (old new : Text) : Nat → Text → Text
  | _, [] => []
  | skip + 1, _ :: rest => replaceFrom old new skip rest
  | 0, c :: rest =>
    if old.isPrefixOf (c :: rest) then new ++ replaceFrom old new (old.length - 1) rest
    else c :: replaceFrom old new 0 rest

/-- Every occurrence of `old` becomes `new`, from left to right and without overlaps. -/
def replaceAll (old new : Text) (t : Text) : Text := replaceFrom old new 0 t

/-- Whether `part` occurs somewhere in the text. -/
def contains (part : Text) : Text → Bool
  | [] => part.isEmpty
  | c :: rest => part.isPrefixOf (c :: rest) || contains part rest

/-- Lower case of the ASCII letters. -/
def lower (t : Text) : Text := t.map Char.toLower

end Text

end DrawFormula
