import DrawFormula.Json.Basic

/-! # Values at names and places

Lenient reads of objects and arrays: where nothing is found, or a value of another kind, a default
is taken.
-/
namespace DrawFormula.Json

/-- The value of a field; `null` without one. -/
def get (v : Json) (name : String) : Json := (v.field? name).getD .null

/-- The item in a place; `null` without one. -/
def item (v : Json) (place : Nat) : Json := ((v.items?.getD [])[place]?).getD .null

/-- The items of a field. -/
def itemsAt (v : Json) (name : String) : List Json := (v.get name).items?.getD []

/-- The text of a value; empty without one. -/
def asText (v : Json) : Text := v.str?.getD []

/-- The text of a field. -/
def textAt (v : Json) (name : String) : Text := (v.get name).asText

/-- The text of a value as a word. -/
def asWord (v : Json) : String := String.ofList v.asText

/-- The integer of a field, if it has one. -/
def intAt? (v : Json) (name : String) : Option Int := (v.get name).int?

/-- The integer of a field. -/
def intAt (v : Json) (name : String) (default : Int) : Int := (v.intAt? name).getD default

/-- A value as a number; `default` for what is none. -/
def asFloat (v : Json) (default : Float) : Float :=
  match v with
  | .int n => Float.ofInt n
  | .float x => x
  | _ => default

/-- The number of a field. -/
def floatAt (v : Json) (name : String) (default : Float) : Float := (v.get name).asFloat default

/-- A value as a natural number; 0 for what is none. -/
def asNat (v : Json) : Nat := (v.int?.getD 0).toNat

/-- The truth value of a value. -/
def asBool (v : Json) (default : Bool) : Bool :=
  match v with
  | .bool b => b
  | _ => default

/-- The truth value of a field. -/
def boolAt (v : Json) (name : String) (default : Bool) : Bool := (v.get name).asBool default

/-- The integers among a value's items. -/
def asInts (v : Json) : List Int := (v.items?.getD []).filterMap int?

/-- The integers among a field's items. -/
def intsAt (v : Json) (name : String) : List Int := (v.get name).asInts

/-- The texts among a value's items. -/
def asTexts (v : Json) : List Text := (v.items?.getD []).filterMap str?

/-- The texts among a field's items. -/
def textsAt (v : Json) (name : String) : List Text := (v.get name).asTexts

/-- What a value runs through: items, characters, or the names of fields. -/
def elements? : Json → Option (List Json)
  | .arr items => some items
  | .str s => some (s.map fun c => .str [c])
  | .obj fields => some (fields.map fun f => .str f.1)
  | _ => none

/-- An object with further fields. -/
def extend (v : Json) (more : List (String × Json)) : Json :=
  .obj (v.fields?.getD [] ++ more.map fun (n, v) => (n.toList, v))

/-- An array of integers. -/
def ints (ns : List Int) : Json := .arr (ns.map .int)

/-- An array of texts. -/
def texts (ts : List Text) : Json := .arr (ts.map .str)

end DrawFormula.Json
