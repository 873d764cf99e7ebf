import DrawFormula.Text.Basic

/-! # Rows of comma-separated fields

A row is a line of fields with commas between them.  A field may stand between double quotes; then
it may hold commas and line breaks, and a quote in it is written twice.  Lines that hold nothing
but spaces and tabs are no rows.  A line ends with a line feed, a carriage return or both; a blank
line that a carriage return ends also takes a comma that follows.  Such blank lines, and the commas
they took, are rows after all if the next line that is not blank begins with a space or a tab.  A
null character ends the text of a field, though not the field.
-/
namespace DrawFormula.Csv

/-- Where in a row the reader is. -/
inductive Place where
  /-- At the beginning of a field. -/
  | start
  /-- In a field, or behind its closing quote and further characters. -/
  | plain
  /-- Between quotes. -/
  | quoted
  /-- Behind a quote in a quoted field. -/
  | quote
deriving Repr, DecidableEq

/-- What the last character may have left behind. -/
inductive Break where
  /-- Nothing. -/
  | none
  /-- It was a carriage return that ended a row. -/
  | row
  /-- It was a carriage return that ended a blank line. -/
  | blankLine
deriving Repr, DecidableEq

/-- Whether a character still belongs to the line break before it. -/
def Break.takes : Break → Char → Bool
  | .none, _ => false
  | .row, c => c = '\n'
  | .blankLine, c => c = '\n' || c = ','

/-- What is read so far; the field and the lists are in reverse. -/
structure Reading where
  place : Place
  field : Text
  row : List Text
  rows : List (List Text)
  /-- Whether the row has a quoted field. -/
  marked : Bool
  /-- The line break that the next character may belong to. -/
  pending : Break
  /-- The blank lines passed over since the last line feed or row. -/
  passed : Text
deriving Repr, DecidableEq

namespace Reading

/-- Before the first character. -/
def empty : Reading := ⟨.start, [], [], [], false, .none, []⟩

/-- Whether nothing is on the line. -/
def isBlankLine (r : Reading) : Bool :=
  r.row.isEmpty && !r.marked && r.field.all fun c => c = ' ' || c = '\t'

/-- The text of the field. -/
def text (r : Reading) : Text := r.field.reverse.takeWhile fun c => c.toNat ≠ 0

/-- Ends the field. -/
def endField (r : Reading) : Reading :=
  { r with place := .start, field := [], row := r.text :: r.row }

/-- Ends the row. -/
def endRow (r : Reading) : Reading :=
  if r.isBlankLine then { r with place := .start, field := [], passed := [] }
  else ⟨.start, [], [], (r.text :: r.row).reverse :: r.rows, false, .none, []⟩

/-- Ends the row at a carriage return. -/
def endRowByReturn (r : Reading) : Reading :=
  if r.isBlankLine then
    { r.endRow with pending := .blankLine, passed := '\r' :: (r.field ++ r.passed) }
  else { r.endRow with pending := .row }

/-- Makes rows of the blank lines passed over, if the line begins with blanks. -/
def reclaim (r : Reading) : Reading :=
  if r.isBlankLine && !r.field.isEmpty then
    let lines := Text.splitAtAll (fun c => c = '\r') (r.field ++ r.passed).reverse
    let rows := lines.map fun line => Text.splitAtAll (fun c => c = ',') line
    let row := (rows.getLast?.getD []).reverse
    { r with
      field := (row.headD []).reverse, row := row.tail, rows := rows.dropLast.reverse ++ r.rows }
  else r

/-- Adds a character to the field. -/
def push (r : Reading) (place : Place) (c : Char) : Reading :=
  { r with place := place, field := c :: r.field }

/-- A character outside quotes. -/
def outside (r : Reading) (c : Char) : Reading :=
  if c = '\n' then r.endRow
  else if c = '\r' then r.endRowByReturn
  else if c = ' ' || c = '\t' then r.push .plain c
  else if c = ',' then r.reclaim.endField
  else r.reclaim.push .plain c

/-- The next character. -/
def step (r : Reading) (c : Char) : Reading :=
  if r.pending.takes c then
    { r with pending := .none, passed := if c = '\n' then [] else c :: r.passed }
  else
    let r := { r with pending := .none }
    match r.place with
    | .start => if c = '"' then { r with place := .quoted, marked := true } else r.outside c
    | .plain => r.outside c
    | .quoted => if c = '"' then { r with place := .quote } else r.push .quoted c
    | .quote => if c = '"' then r.push .quoted c else r.outside c

/-- The rows at the end of the text, unless a quoted field is open. -/
def finish? (r : Reading) : Option (List (List Text)) :=
  if r.place = .quoted then none else some (r.endRow.rows.reverse)

end Reading

/-- The rows of a text; none if a quoted field is not closed. -/
def rows? (t : Text) : Option (List (List Text)) := (t.foldl Reading.step .empty).finish?

/-- Whether a field has to be quoted. -/
def needsQuotes (field : Text) : Bool := field.any fun c => c = ',' || c = '"' || c = '\n'

/-- The written form of a field. -/
def fieldText (field : Text) : Text :=
  if needsQuotes field then
    '"' :: (field.flatMap (fun c => if c = '"' then ['"', '"'] else [c]) ++ ['"'])
  else field

/-- The written form of a row. -/
def rowText (row : List Text) : Text := List.intercalate [','] (row.map fieldText) ++ ['\n']

end DrawFormula.Csv
