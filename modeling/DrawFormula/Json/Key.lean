import DrawFormula.Decimal.Shortest
import DrawFormula.Json.Basic

/-! # Values as keys

A value that is no list and no object may be looked up.  Numbers are the same key if they are equal,
whether they are written with a fraction or not, and truth values count as 1 and 0.
-/
namespace DrawFormula.Json

/-- What a value is looked up by. -/
inductive Key where
  | null
  | int (i : Int)
  /-- A number that is no integer, by its bits. -/
  | float (bits : UInt64)
  | text (t : Text)
deriving DecidableEq, Hashable

/-- The key that a value is; none for a list or an object. -/
def key? : Json → Option Key
  | .null => some .null
  | .bool b => some (.int (if b then 1 else 0))
  | .int i => some (.int i)
  | .float x =>
    some (if Decimal.isIntegral x then .int (Decimal.truncate x) else .float x.toBits)
  | .str s => some (.text s)
  | .arr _ | .obj _ => none

/-- The integer that a value is equal to. -/
def integral? (v : Json) : Option Int :=
  match v.key? with
  | some (.int i) => some i
  | _ => none

/-- A value that is a key.  Values of one key are the same to look-ups, though they may be written
differently. -/
structure Keyed where
  value : Json
  key : Key

namespace Keyed

instance : BEq Keyed := ⟨fun a b => a.key == b.key⟩

instance : Hashable Keyed := ⟨fun a => hash a.key⟩

/-- A value with its key. -/
def ofJson? (v : Json) : Option Keyed := v.key?.map (Keyed.mk v)

end Keyed

end DrawFormula.Json
