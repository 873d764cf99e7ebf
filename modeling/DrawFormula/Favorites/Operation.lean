import DrawFormula.Favorites

/-! # Operations on favorites

Favorites are looked at and changed. Each operation has an answer. One that fails may still have
made the default group.
-/
namespace DrawFormula.Favorites

/-- What is asked of favorites. -/
inductive Operation where
  /-- Show the groups. -/
  | look
  /-- Add a group of a name. -/
  | addGroup (name : Json)
  /-- Delete the groups of an identifier. -/
  | deleteGroup (id : Text)
  /-- Add a formula to a group. -/
  | addFormula (id formula : Text)
  /-- Remove a formula from a group. -/
  | removeFormula (id formula : Text)

/-- The answer to an operation. -/
inductive Reply where
  /-- The groups. -/
  | shown (entries : List Entry)
  /-- The new group. -/
  | added (g : Group)
  /-- Whether anything is changed. -/
  | changed (any : Bool)
  /-- The operation fails. -/
  | failed (e : Error)

namespace Collection

/-- The answer to an operation from what it gives unless it fails. -/
def answered {α : Type} (f : α → Reply) (r : Except Error α × Collection) : Reply × Collection :=
  match r with
  | (.ok a, c) => (f a, c)
  | (.error e, c) => (.failed e, c)

/-- The answer to an operation, and the collection after it. -/
def apply (clock : Clock) (c : Collection) : Operation → Reply × Collection
  | .look => (.shown (c.opened clock).entries, c.opened clock)
  | .addGroup name => answered .added (c.addGroup clock name)
  | .deleteGroup id => answered .changed (c.deleteGroup clock id)
  | .addFormula id formula => answered .changed (c.addFormula clock id formula)
  | .removeFormula id formula => answered .changed (c.removeFormula clock id formula)

end Collection

end DrawFormula.Favorites
