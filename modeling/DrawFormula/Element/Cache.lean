import DrawFormula.Element.Basic
import Std.Data.HashMap

/-! # Remembered element values

A memo of bounded size that forgets the oldest insertion first; overwriting a key does not renew
its age.  A capacity of 0 remembers nothing and counts nothing.  Elements are looked up through a
memo keyed by the element, the draw's period and the order of the ping numbers.
-/
namespace DrawFormula

/-- A bounded memo.  A remembered `none` counts as a miss. -/
structure Memo (κ ν : Type) [BEq κ] [Hashable κ] where
  /-- How many keys are kept. -/
  capacity : Nat
  /-- The value of each key. -/
  entries : Std.HashMap κ (Option ν)
  /-- The keys in order of insertion. -/
  inserted : Array κ
  /-- How many of the inserted keys are forgotten. -/
  forgotten : Nat
  /-- Look-ups that found a value. -/
  hits : Nat
  /-- Look-ups that found none. -/
  misses : Nat

namespace Memo

variable {κ ν : Type} [BEq κ] [Hashable κ]

/-- A memo that has seen nothing. -/
def empty (capacity : Nat) : Memo κ ν := ⟨capacity, ∅, #[], 0, 0, 0⟩

/-- Whether anything can be remembered. -/
def enabled (m : Memo κ ν) : Bool := 0 < m.capacity

/-- The keys that are remembered, oldest insertion first. -/
def keys (m : Memo κ ν) : List κ := m.inserted.toList.drop m.forgotten

/-- The keys with their values, oldest insertion first. -/
def toList (m : Memo κ ν) : List (κ × Option ν) :=
  m.keys.map fun k => (k, (m.entries[k]?).join)

/-- The number of remembered keys. -/
def size (m : Memo κ ν) : Nat := m.entries.size

/-- The value of a key, and the memo that has counted the look-up. -/
def get (m : Memo κ ν) (k : κ) : Option ν × Memo κ ν :=
  match m.entries[k]? with
  | some (some v) => (some v, { m with hits := m.hits + 1 })
  | _ => (none, { m with misses := m.misses + 1 })

/-- The memo without its oldest key. -/
def dropOldest (m : Memo κ ν) : Memo κ ν :=
  match m.inserted[m.forgotten]? with
  | some k => { m with entries := m.entries.erase k, forgotten := m.forgotten + 1 }
  | none => m

/-- Remembers a value; a new key in a full memo takes the place of the oldest one. -/
def put (m : Memo κ ν) (k : κ) (v : Option ν) : Memo κ ν :=
  if !m.enabled then m
  else if m.entries.contains k then { m with entries := m.entries.insert k v }
  else
    let room := if m.capacity ≤ m.size then m.dropOldest else m
    { room with entries := room.entries.insert k v, inserted := room.inserted.push k }

/-- Forgets everything, the counts included. -/
def clear (m : Memo κ ν) : Memo κ ν := empty m.capacity

end Memo

namespace Element

/-- What a look-up is remembered by: the element, the draw's period, and whether the ping
numbers are ascending. -/
abbrev Key := Element × Int × Bool

/-- The memo of element values. -/
abbrev Cache := Memo Key Int

/-- The value of an element, looked up before it is computed. -/
def lookup (e : Element) (d : Draw) (sorted : Bool) (cache : Cache) : Int × Cache :=
  if cache.enabled then
    let key : Key := (e, d.period, sorted)
    match cache.get key with
    | (some v, cache) => (v, cache)
    | (none, cache) =>
      let v := e.value d sorted
      (v, cache.put key (some v))
  else (e.value d sorted, cache)

end Element

end DrawFormula
