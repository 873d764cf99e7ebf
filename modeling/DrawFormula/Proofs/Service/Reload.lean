import DrawFormula.Proofs.History.Reload
import DrawFormula.Service.State

/-! # A saved history is loaded again

The service saves the table of its history whenever an import changes it. A history that is loaded
from the saved table is the one that was saved just if the columns of weekdays and of stems and
branches are read back. Stems and branches that stand for missing values are lost.
-/
namespace DrawFormula.Service
open History

/-- Whether the saved table is the one of the history. -/
def Saved (s : State) : Prop := ∀ text ∈ s.saved, text = tableText s.history.toList

/-- A service after imports. -/
def afterImports (engine : Engine) (imports : List Import) : State :=
  imports.foldl (fun s r => (s.importHistory r).2) (.empty engine)

theorem saved_merge (s : State) (draws : List Draw) : Saved (s.merge draws) :=
  fun _ h => (Option.some.inj h).symm

theorem Saved.importText {s : State} (h : Saved s) (r : Import) : Saved (s.importText r).2 := by
  unfold State.importText
  split
  · exact h
  · exact saved_merge _ _

theorem Saved.importHistory {s : State} (h : Saved s) (r : Import) :
    Saved (s.importHistory r).2 := by
  unfold State.importHistory
  dsimp only
  split
  · exact h.importText r
  · split
    · exact h.importText r
    · exact saved_merge _ _

theorem saved_afterImports (engine : Engine) (imports : List Import) :
    Saved (afterImports engine imports) := by
  have hfold (s : State) (h : Saved s) :
      Saved (imports.foldl (fun s r => (s.importHistory r).2) s) := by
    induction imports generalizing s with
    | nil => exact h
    | cons r rest ih => exact ih _ (h.importHistory r)
  exact hfold _ nofun

/-- A draw with a weekday and a stem and branch. -/
def dated : RawDraw := ⟨2,[8,9,10,11,12,13,14],7,some 3,some "乙丑".toList⟩

/-- A draw without them. -/
def undated : RawDraw := ⟨1,[1,2,3,4,5,6,7],7,none,none⟩

/-- A draw whose stem and branch is a word for a missing value. -/
def unnamed : RawDraw := ⟨1,[1,2,3,4,5,6,7],7,none,some "NA".toList⟩

end DrawFormula.Service
