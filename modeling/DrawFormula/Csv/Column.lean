import DrawFormula.Csv.Rows
import DrawFormula.Decimal.Reading

/-! # Columns of cells

A table has a row of names and rows of fields.  What its fields stand for is decided column by
column: a column holds integers, numbers or truth values if all of its fields that are not missing
do, and texts otherwise.
-/
namespace DrawFormula.Csv

/-- What a field stands for. -/
inductive Cell where
  | missing
  | int (i : Int)
  | float (x : Float)
  | bool (b : Bool)
  | text (t : Text)

/-- Words that stand for a missing value. -/
def missingWords : List Text :=
  ["", "#N/A", "#N/A N/A", "#NA", "-1.#IND", "-1.#QNAN", "-NaN", "-nan", "1.#IND", "1.#QNAN",
    "<NA>", "N/A", "NA", "NULL", "NaN", "None", "n/a", "nan", "null"].map String.toList

/-- Whether a field is missing. -/
def isMissing (field : Text) : Bool := missingWords.contains field

/-- Blanks that may surround a number. -/
def isPadding (c : Char) : Bool := c = ' ' || (0x09 ≤ c.toNat && c.toNat ≤ 0x0d)

/-- The integer that a field denotes with ASCII digits. -/
def integer? (field : Text) : Option Int :=
  let (negative, digits) := Text.splitSign (Text.trimBy isPadding field)
  if !digits.isEmpty && digits.all fun c => '0' ≤ c && c ≤ '9' then
    let n : Int := Text.digitsValue digits
    some (if negative then -n else n)
  else none

/-- The integer of any size that a field denotes; single underscores may stand between digits. -/
def longInteger? (field : Text) : Option Int :=
  let body := Text.trimBy isPadding field
  if body.all fun c => c.isDigit || c = '_' || c = '+' || c = '-' then (Text.readInt body).toOption
  else none

/-- The infinite number that a field denotes by a word. -/
def infinity? (field : Text) : Option Float :=
  let (negative, word) := Text.splitSign field
  if ["inf", "infinity"].contains (String.ofList (Text.lower word)) then
    some (if negative then -1 / 0 else 1 / 0)
  else none

/-- The number nearest to the numeral in a field. -/
def number? (field : Text) : Option Float :=
  let (negative, body) := Text.splitSign (Text.trimBy isPadding field)
  let magnitude :=
    if body.all fun c => c.toNat < 128 then (Decimal.numeral? false body).map Decimal.Numeral.value
    else none
  match magnitude with
  | some x => some (if negative then -x else x)
  | none => infinity? field

/-- The truth value that a field denotes by a word in either case. -/
def bool? (field : Text) : Option Bool :=
  let word := String.ofList (Text.lower field)
  if word = "true" then some true else if word = "false" then some false else none

/-- Whether an integer fits into 64 bits with a sign. -/
def isWord (i : Int) : Bool := -9223372036854775808 ≤ i && i < 9223372036854775808

/-- Whether an integer fits into 64 bits without a sign. -/
def isUnsignedWord (i : Int) : Bool := 0 ≤ i && i < 18446744073709551616

/-- The cells of a column: missing fields stay missing, the others are read by `read`. -/
def cellsBy (read : Text → Cell) (fields : List Text) : List Cell :=
  fields.map fun field => if isMissing field then .missing else read field

/-- How the fields of a column fit integers. -/
inductive IntegerFit where
  /-- A field is no integer. -/
  | none
  /-- All fields are integers of 64 bits with a sign. -/
  | signed
  /-- All fields are integers of 64 bits without a sign. -/
  | unsigned
  /-- An integer is beyond 64 bits. -/
  | beyond
  /-- Integers that need all of 64 bits stand beside negative or missing ones. -/
  | split
deriving Repr, DecidableEq

/-- Whether a field begins like a negative number. -/
def isNegative (field : Text) : Bool := (field.dropWhile isPadding).head? = some '-'

/-- How fields fit integers of 64 bits without a sign; the first field that fits none decides.
Fields that begin with a minus sign are not looked at any closer. -/
def unsignedFit (fields : List Text) : IntegerFit :=
  let present := fields.filter fun field => !isMissing field
  let positive := present.filter fun field => !isNegative field
  let complete := present.length = fields.length && positive.length = present.length
  match positive.find? fun field => !(integer? field).any isUnsignedWord with
  | some field => if (integer? field).isNone then .none else .beyond
  | none =>
    if complete then .unsigned
    else if positive.any fun field => !(integer? field).any isWord then .split
    else .beyond

/-- How fields fit integers; the first field that is no integer of 64 bits with a sign decides. -/
def integerFit (fields : List Text) : IntegerFit :=
  let present := fields.filter fun field => !isMissing field
  match present.find? fun field => !(integer? field).any isWord with
  | some field => if (integer? field).isNone then .none else unsignedFit fields
  | none => .signed

/-- The cell of what a field denotes; it is missing if it denotes nothing. -/
def cellOf (kind : α → Cell) (value? : Text → Option α) (field : Text) : Cell :=
  (value? field).elim .missing kind

/-- The cells of a column that does not hold integers only. -/
def looseCells (fields : List Text) : List Cell :=
  let present := fields.filter fun field => !isMissing field
  if present.all fun field => (number? field).isSome then cellsBy (cellOf .float number?) fields
  else if present.all fun field => (bool? field).isSome then cellsBy (cellOf .bool bool?) fields
  else cellsBy .text fields

/-- The least integer of 64 bits with a sign, as a number. -/
def leastWord : Float := Float.ofInt (-9223372036854775808)

/-- The cell of an integer of 64 bits in a column with missing fields.  The least one stands for
what is missing. -/
def wordCell (field : Text) : Cell :=
  cellOf .float (fun field => (number? field).filter fun x => x != leastWord) field

/-- The cells of a column.  Integers with missing fields among them are kept as floating-point
numbers if they fit into 64 bits. -/
def cells (fields : List Text) : List Cell :=
  match integerFit fields with
  | .signed =>
    if fields.any isMissing then cellsBy wordCell fields else fields.map (cellOf .int integer?)
  | .unsigned => fields.map (cellOf .int integer?)
  | .beyond =>
    if fields.all fun field => isMissing field || (longInteger? field).isSome then
      cellsBy (cellOf .int longInteger?) fields
    else looseCells fields
  | .split => fields.map .text
  | .none => looseCells fields

namespace Cell

/-- The cell as a number: a text is read as one, and is missing if it denotes none. -/
def toNumber : Cell → Cell
  | .missing => .missing
  | .int i => .int i
  | .float x => .float x
  | .bool b => .int (if b then 1 else 0)
  | .text t => cellOf .float number? t

/-- Whether the cell is missing. -/
def isMissing : Cell → Bool
  | .missing => true
  | _ => false

/-- The floating-point number nearest to a number. -/
def toFloat : Cell → Float
  | .int i => Float.ofInt i
  | .float x => x
  | _ => 0

/-- The cell with its integer, if it holds one, as a floating-point number. -/
def rounded : Cell → Cell
  | .int i => .float (Float.ofInt i)
  | c => c

/-- Whether the integer in the cell, if it holds one, satisfies `p`. -/
def holdsOnly (p : Int → Bool) : Cell → Bool
  | .int i => p i
  | _ => true

/-- Whether two numbers are equal. -/
def sameNumber : Cell → Cell → Bool
  | .int i, .int j => i = j
  | a, b => a.toFloat == b.toFloat

/-- Whether a number is at least another one. -/
def atLeast : Cell → Cell → Bool
  | .int i, .int j => j ≤ i
  | a, b => b.toFloat ≤ a.toFloat

end Cell

/-- The cells of a column as numbers.  Integers are kept as floating-point numbers unless all fit
into 64 bits of one kind. -/
def numbers (cells : List Cell) : List Cell :=
  let cells := cells.map Cell.toNumber
  if cells.all (Cell.holdsOnly isWord) || cells.all (Cell.holdsOnly isUnsignedWord) then cells
  else cells.map Cell.rounded

/-- A table: the names of its columns and their cells. -/
structure Table where
  columns : List (Text × List Cell)
  /-- How many rows there are below the names. -/
  size : Nat

/-- Why a text is no table. -/
inductive TableFault where
  /-- There is no row. -/
  | empty
  /-- A row is longer than those before it, or a quoted field is not closed. -/
  | ragged
deriving Repr, DecidableEq

/-- Rows filled up with empty fields to a width; none if a row is wider. -/
def fitTo? (width : Nat) (rows : List (List Text)) : Option (List (List Text)) :=
  rows.mapM fun row =>
    if row.length ≤ width then some (row ++ List.replicate (width - row.length) []) else none

namespace Table

/-- The table of rows with the names in the first one.  The first row below sets the width; if it
is wider than the names, its first fields belong to no column. -/
def ofRows : List (List Text) → Except TableFault Table
  | [] => .error .empty
  | names :: rows =>
    let width := max names.length ((rows.head?.map List.length).getD 0)
    match fitTo? width rows with
    | none => .error .ragged
    | some rows =>
      let extra := width - names.length
      .ok ⟨names.mapIdx fun i name => (name, cells (rows.map fun row => (row[extra + i]?).getD [])),
        rows.length⟩

/-- Reads a table; a byte order mark before it is passed over. -/
def read (t : Text) : Except TableFault Table :=
  let t := match t with
    | '\ufeff' :: rest => rest
    | t => t
  match rows? t with
  | none => .error .ragged
  | some rows => ofRows rows

/-- The cells of the first column of a name. -/
def column? (t : Table) (name : String) : Option (List Cell) :=
  (t.columns.find? fun c => c.1 = name.toList).map (·.2)

end Table

end DrawFormula.Csv
