import DrawFormula.Proofs.Element.Cache
import DrawFormula.Proofs.Expression.Substitution

/-! # Values with a memo

As long as look-ups answer with a draw's own values, a memo has no influence on the value of an
expression.
-/
namespace DrawFormula.Expression
variable {I : Element.Cache → Prop} {d : Draw} (h : Element.Answers I d) (sorted : Bool)

include h in
theorem substituteAll_of_answers (lexemes : List Lexeme) {cache : Element.Cache} (hi : I cache) :
    (substituteAll d sorted lexemes cache).1 = lexemes.flatMap (Lexeme.contribution d sorted) ∧
      I (substituteAll d sorted lexemes cache).2 := by
  induction lexemes generalizing cache with
  | nil => exact ⟨rfl,hi⟩
  | cons lexeme rest ih =>
    cases lexeme with
    | name e =>
      obtain ⟨hvalue,hafter⟩ := h e sorted cache hi
      obtain ⟨hrest,hlast⟩ := ih hafter
      refine ⟨?_,hlast⟩
      rw [substituteAll,List.flatMap_cons,Lexeme.contribution,← hrest,← hvalue]
    | char c =>
      obtain ⟨hrest,hlast⟩ := ih hi
      refine ⟨?_,hlast⟩
      rw [substituteAll,List.flatMap_cons,Lexeme.contribution,← hrest]

include h in
/-- An expression has the value that it has without a memo. -/
theorem evaluate_of_answers (t : Text) {cache : Element.Cache} (hi : I cache) :
    (evaluate t d sorted cache).1 = (evaluate t d sorted (Memo.empty 0)).1 ∧
      I (evaluate t d sorted cache).2 := by
  let lexemes := Lexeme.scan (resolve d.special t)
  obtain ⟨htext,hafter⟩ := substituteAll_of_answers h sorted lexemes hi
  have hdisabled : (Memo.empty 0 : Element.Cache).enabled = false := rfl
  have hnone := substituteAll_of_disabled hdisabled d sorted lexemes
  have hsplit : substituteAll d sorted lexemes cache =
      (lexemes.flatMap (Lexeme.contribution d sorted),
        (substituteAll d sorted lexemes cache).2) := Prod.ext htext rfl
  simp only [evaluate,substitute,lexemes] at hafter hnone hsplit ⊢
  rw [hnone,hsplit]
  cases unknownIn (Lexeme.scan (resolve d.special t)) with
  | nil => exact ⟨rfl,hafter⟩
  | cons c rest => exact ⟨rfl,hafter⟩

/-! ## One name -/

theorem evaluate_name {t : Text} {d : Draw} {e : Element}
    (hscan : Lexeme.scan (resolve d.special t) = [.name e]) (sorted : Bool)
    (cache : Element.Cache) : evaluate t d sorted cache =
      (sumOrZero (collapsePlus (Text.ofInt (e.lookup d sorted cache).1)),
        (e.lookup d sorted cache).2) := by
  simp [evaluate,substitute,hscan,substituteAll,unknownIn]

/-- A memo with room gives the second draw of a period the value of the first. -/
theorem evaluate_again {t : Text} {d d' : Draw} {e : Element} (hp : d'.period = d.period)
    (hscan : Lexeme.scan (resolve d.special t) = [.name e])
    (hscan' : Lexeme.scan (resolve d'.special t) = [.name e]) (sorted : Bool)
    {cache : Element.Cache} (h : cache.enabled = true) :
    (evaluate t d' sorted (evaluate t d sorted cache).2).1 = (evaluate t d sorted cache).1 := by
  rw [evaluate_name hscan',evaluate_name hscan,Element.lookup_lookup h e hp]

end DrawFormula.Expression
