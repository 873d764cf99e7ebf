import DrawFormula.Proofs.Expression.Tree

/-! # Rewriting the innermost blocks

One pass over a text reads the blocks that hold no other block as pieces, and a block around other
blocks as plain text. Where such a pass puts the written form of a tree in the place of a block, it
rewrites the innermost blocks of a tree.
-/
namespace DrawFormula.Expression.Tree
variable {κ : Type}

/-- The tree with `g` in the place of its innermost blocks. -/
def rewriteInner (g : κ → Tree κ → Tree κ → Tree κ) : Tree κ → Tree κ
  | element s => element s
  | literal l => literal l
  | group a => group (a.rewriteInner g)
  | block k yes no =>
    if yes.blocks + no.blocks = 0 then g k yes no
    else block k (yes.rewriteInner g) (no.rewriteInner g)
  | join a o b => join (a.rewriteInner g) o (b.rewriteInner g)
  | lead o a => lead o (a.rewriteInner g)
  | trail a o => trail (a.rewriteInner g) o

variable {g : κ → Tree κ → Tree κ → Tree κ}

theorem rewriteInner_of_flat {t : Tree κ} (h : t.blocks = 0) : t.rewriteInner g = t := by
  induction t <;> simp_all [blocks,rewriteInner]

section Written
variable [Label κ] {f : Piece → Text}

/-- A pass over the text is a pass over the tree, with any text behind it. -/
theorem flatMap_ofText_text (hf : ∀ t, f (.plain t) = t)
    (hg : ∀ k (yes no : Tree κ), f (.block ⟨Label.text k,yes.text,no.text⟩) = (g k yes no).text)
    (t : Tree κ) (rest : Text) : (Piece.ofText (t.text ++ rest)).flatMap f =
      (t.rewriteInner g).text ++ (Piece.ofText rest).flatMap f := by
  have hmark : ∀ {c : Char}, c ≠ '{' → ∀ rest,
      (Piece.ofText (c :: rest)).flatMap f = c :: (Piece.ofText rest).flatMap f :=
    fun hc rest => Piece.flatMap_ofText_cons hf (Block.leading?_of_ne hc rest)
  induction t generalizing rest with
  | element s =>
    exact Piece.flatMap_ofText_append hf (fun c hc => (inner_of_mem_spelling s hc).1) rest
  | literal l =>
    exact Piece.flatMap_ofText_append hf (fun c hc => (inner_of_mem_literal l hc).1) rest
  | group a ih =>
    simp only [text,rewriteInner,List.cons_append,List.append_assoc,List.nil_append]
    rw [hmark (by decide),ih,hmark (by decide)]
  | block k yes no ihy ihn =>
    by_cases h : yes.blocks + no.blocks = 0
    · have hflat : yes.blocks = 0 ∧ no.blocks = 0 := by omega
      rw [text,Piece.flatMap_ofText_block (proper_block k hflat.1 hflat.2),rewriteInner,if_pos h,hg]
    · have hopen := leading?_block_eq_none k h rest
      have hlabel : ∀ c ∈ Label.text k, c ≠ '{' := by
        intro c hc
        have hin := (Label.isField k).2 c hc
        rintro rfl
        simp [Block.inField] at hin
      simp only [text,rewriteInner,if_neg h,Block.text,List.cons_append,List.append_assoc,
        List.nil_append] at hopen ⊢
      rw [Piece.flatMap_ofText_cons hf hopen,Piece.flatMap_ofText_append hf hlabel,
        hmark (by decide),ihy,hmark (by decide),ihn,hmark (by decide)]
  | join a o b iha ihb =>
    simp only [text,rewriteInner,List.cons_append,List.append_assoc]
    rw [iha,hmark (inner_sign o).1,ihb]
  | lead o a ih =>
    simp only [text,rewriteInner,List.cons_append]
    rw [hmark (inner_sign o).1,ih]
  | trail a o ih =>
    simp only [text,rewriteInner,List.cons_append,List.append_assoc,List.nil_append]
    rw [ih,hmark (inner_sign o).1]

end Written

end DrawFormula.Expression.Tree
