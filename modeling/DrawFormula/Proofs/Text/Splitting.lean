import DrawFormula.Text.Basic

/-! # Pieces of a text

The pieces between the characters of a class are those of the library.
-/
namespace DrawFormula.Text

theorem splitAtAll_eq_splitOnP (p : Char → Bool) (t : Text) : splitAtAll p t = t.splitOnP p := by
  induction t with
  | nil => rfl
  | cons c t ih =>
    rw [splitAtAll,ih,List.splitOnP_cons_eq_if_modifyHead]
    cases h : t.splitOnP p with
    | nil => exact absurd h (List.splitOnP_ne_nil p t)
    | cons piece pieces => rfl

end DrawFormula.Text
