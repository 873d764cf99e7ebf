import DrawFormula.Proofs.Expression.Innermost

/-! # Resolving conditional blocks

One round resolves the blocks that hold no other block and leaves the rest of the text alone. On
the written form of a tree the rounds end in the written form of the branches that the conditions
choose, whatever the nesting.
-/
namespace DrawFormula.Expression

/-! ## One round on text -/

section Round
variable (special : Int)

theorem resolveOnce_cons {c : Char} {rest : Text} (h : Block.leading? (c :: rest) = none) :
    resolveOnce special (c :: rest) = c :: resolveOnce special rest :=
  Piece.flatMap_ofText_cons (fun _ => rfl) h

theorem resolveOnce_block {b : Block} (h : b.Proper) (rest : Text) :
    resolveOnce special (b.text ++ rest) =
      (if conditionHolds b.condition special then b.yes else b.no) ++ resolveOnce special rest :=
  Piece.flatMap_ofText_block h rest

end Round

namespace Tree
variable {κ : Type} [Label κ] (special : Int)

/-! ## One round on trees -/

/-- The tree with its innermost blocks resolved. -/
def resolveInner : Tree κ → Tree κ
  | element s => element s
  | literal l => literal l
  | group a => group a.resolveInner
  | block k yes no =>
    if yes.blocks + no.blocks = 0 then
      if conditionHolds (Label.text k) special then yes else no
    else block k yes.resolveInner no.resolveInner
  | join a o b => join a.resolveInner o b.resolveInner
  | lead o a => lead o a.resolveInner
  | trail a o => trail a.resolveInner o

/-- The tree of the branches that the conditions choose. -/
def chosen : Tree κ → Tree Empty
  | element s => element s
  | literal l => literal l
  | group a => group a.chosen
  | block k yes no => if conditionHolds (Label.text k) special then yes.chosen else no.chosen
  | join a o b => join a.chosen o b.chosen
  | lead o a => lead o a.chosen
  | trail a o => trail a.chosen o

theorem resolveInner_of_flat {t : Tree κ} (h : t.blocks = 0) : t.resolveInner special = t := by
  induction t <;> simp_all [blocks,resolveInner]

theorem chosen_text_of_flat {t : Tree κ} (h : t.blocks = 0) :
    (t.chosen special).text = t.text := by
  induction t <;> simp_all [blocks,chosen,text]

theorem chosen_resolveInner (t : Tree κ) :
    (t.resolveInner special).chosen special = t.chosen special := by
  induction t with
  | element s => rfl
  | literal l => rfl
  | group a ih => simp only [resolveInner,chosen,ih]
  | block k yes no ihy ihn =>
    simp only [resolveInner]
    split
    · simp only [chosen]
      split <;> rfl
    · simp only [chosen,ihy,ihn]
  | join a o b iha ihb => simp only [resolveInner,chosen,iha,ihb]
  | lead o a ih => simp only [resolveInner,chosen,ih]
  | trail a o ih => simp only [resolveInner,chosen,ih]

theorem resolveInner_eq_rewriteInner (t : Tree κ) : t.resolveInner special =
    t.rewriteInner fun k yes no => if conditionHolds (Label.text k) special then yes else no := by
  induction t <;> simp_all only [resolveInner,rewriteInner]

/-- A round of the text is a round of the tree. -/
theorem resolveOnce_text (t : Tree κ) :
    resolveOnce special t.text = (t.resolveInner special).text := by
  have h := flatMap_ofText_text (f := Piece.resolve special) (fun _ => rfl)
    (fun k yes no => (apply_ite text (conditionHolds (Label.text k) special = true) yes no).symm)
    t []
  rw [List.append_nil,← resolveInner_eq_rewriteInner] at h
  rw [resolveOnce,h]
  exact List.append_nil _

/-! ## All rounds -/

theorem length_resolveInner_le (t : Tree κ) :
    (t.resolveInner special).text.length ≤ t.text.length := by
  induction t with
  | element s => exact le_rfl
  | literal l => exact le_rfl
  | group a ih => simpa [resolveInner,text] using ih
  | block k yes no ihy ihn =>
    simp only [resolveInner]
    split
    · split <;> simp only [text,Block.text,List.length_cons,List.length_append] <;> omega
    · simp only [text,Block.text,List.length_cons,List.length_append]
      omega
  | join a o b iha ihb =>
    simp only [resolveInner,text,List.length_append,List.length_cons]
    omega
  | lead o a ih => simpa [resolveInner,text] using ih
  | trail a o ih => simpa [resolveInner,text] using ih

/-- A round shortens every text that holds a block. -/
theorem length_resolveInner_lt {t : Tree κ} (h : t.blocks ≠ 0) :
    (t.resolveInner special).text.length < t.text.length := by
  induction t with
  | element s => exact absurd rfl h
  | literal l => exact absurd rfl h
  | group a ih => simpa [resolveInner,text] using ih h
  | block k yes no ihy ihn =>
    simp only [resolveInner]
    split
    · split <;> simp only [text,Block.text,List.length_cons,List.length_append] <;> omega
    · next hin =>
      have hy := length_resolveInner_le special yes
      have hn := length_resolveInner_le special no
      simp only [text,Block.text,List.length_cons,List.length_append]
      by_cases hyes : yes.blocks = 0
      · have := ihn (by omega)
        omega
      · have := ihy hyes
        omega
  | join a o b iha ihb =>
    have ha := length_resolveInner_le special a
    have hb := length_resolveInner_le special b
    simp only [resolveInner,text,List.length_append,List.length_cons]
    by_cases hza : a.blocks = 0
    · have := ihb (by simpa [blocks,hza] using h)
      omega
    · have := iha hza
      omega
  | lead o a ih => simpa [resolveInner,text] using ih h
  | trail a o ih => simpa [resolveInner,text] using ih h

theorem resolveUpTo_text {fuel : ℕ} {t : Tree κ} (h : t.text.length ≤ fuel) :
    resolveUpTo special fuel t.text = (t.chosen special).text := by
  induction fuel generalizing t with
  | zero => exact absurd (List.eq_nil_of_length_eq_zero (by omega)) t.text_ne_nil
  | succ fuel ih =>
    simp only [resolveUpTo,resolveOnce_text]
    by_cases hb : t.blocks = 0
    · rw [if_pos (by rw [resolveInner_of_flat special hb]),chosen_text_of_flat special hb]
    · have hlt := length_resolveInner_lt special hb
      rw [if_neg (fun he => hlt.ne (congrArg List.length he)),ih (by omega),chosen_resolveInner]

/-- Resolving the written form leaves the written form of the chosen branches. -/
theorem resolve_text (t : Tree κ) : resolve special t.text = (t.chosen special).text :=
  resolveUpTo_text special le_rfl

end Tree

end DrawFormula.Expression
