import DrawFormula.Text.Numeral

/-! # JSON values

A value of the data format.  Integers are unbounded and kept apart from floating-point numbers.
The fields of an object are in the order in which they were first written; a field written again
takes the later value in the earlier place.
-/
namespace DrawFormula

/-- A JSON value. -/
inductive Json where
  | null
  | bool (b : Bool)
  | int (i : Int)
  | float (x : Float)
  | str (s : Text)
  | arr (items : List Json)
  | obj (fields : List (Text × Json))
deriving Inhabited

namespace Json

/-- The text of a string literal as a value. -/
def lit (s : String) : Json := .str s.toList

/-- An object with fields named by literals. -/
def record (fields : List (String × Json)) : Json :=
  .obj (fields.map fun (name, v) => (name.toList, v))

/-- `null` for a missing value. -/
def opt {α : Type} (encode : α → Json) : Option α → Json
  | none => .null
  | some a => encode a

/-- Puts a field into a list of fields, in its earlier place if it has one. -/
def setField (name : Text) (v : Json) : List (Text × Json) → List (Text × Json)
  | [] => [(name, v)]
  | (n, old) :: rest =>
    if n = name then (n, v) :: rest else (n, old) :: setField name v rest

/-- The value of a field of an object. -/
def field? (name : String) : Json → Option Json
  | .obj fields => (fields.find? fun f => f.1 = name.toList).map (·.2)
  | _ => none

/-- Whether the value is `null`. -/
def isNull : Json → Bool
  | .null => true
  | _ => false

/-- The integer that a value is. -/
def int? : Json → Option Int
  | .int i => some i
  | _ => none

/-- The text that a value is. -/
def str? : Json → Option Text
  | .str s => some s
  | _ => none

/-- The items of an array. -/
def items? : Json → Option (List Json)
  | .arr items => some items
  | _ => none

/-- The fields of an object. -/
def fields? : Json → Option (List (Text × Json))
  | .obj fields => some fields
  | _ => none

end Json

end DrawFormula
