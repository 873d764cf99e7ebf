import DrawFormula.History.Store
import DrawFormula.History.Table

/-! # Changes of a store

A store is changed by merging draws, which may come from a text or a table, and by removing them.
Each change has an answer. A table that cannot be read changes nothing.
-/
namespace DrawFormula.History

/-- What is asked of a store. -/
inductive Change where
  /-- Merge draws. -/
  | merge (draws : List Draw)
  /-- Merge the draws on the lines of a text. -/
  | mergeText (text : Text) (zodiacYear : Int)
  /-- Merge the draws of a table. -/
  | mergeTable (text : Text) (defaultYear : Int)
  /-- Remove the draw of a period. -/
  | erase (period : Int)
  /-- Remove every draw. -/
  | clear

/-- The answer to a change. -/
inductive Reply where
  /-- How many periods are new. -/
  | added (count : Nat)
  /-- Whether there was a draw to remove. -/
  | erased (found : Bool)
  | cleared
  /-- The table cannot be read. -/
  | failed (e : HistoryTableError)

namespace Store

/-- Merges draws and answers how many periods are new. -/
def add (s : Store) (draws : List Draw) : Reply × Store := (.added (s.growth draws), s.merge draws)

/-- The answer to a change, and the store after it. -/
def apply (s : Store) : Change → Reply × Store
  | .merge draws => s.add draws
  | .mergeText text zodiacYear => s.add (ofText text zodiacYear)
  | .mergeTable text defaultYear =>
    match ofTable text defaultYear with
    | .ok draws => s.add draws
    | .error e => (.failed e, s)
  | .erase period => (.erased (s.get? period).isSome, s.erase period)
  | .clear => (.cleared, s.clear)

end Store

end DrawFormula.History
