import DrawFormula.Proofs.Expression.Normalization

/-! # The elements of an expression

Listing the elements of an expression leaves the conditions of its innermost blocks out. A block
around other blocks is not read as a block: its condition stays in the text with canonical names and
is listed as the attribute of the special number that it asks for. An expression without such blocks
has just the elements of its terms.
-/
namespace DrawFormula.Expression
open Element

/-! ## Names of a text -/

/-- The elements that a text names. -/
def namesOf (t : Text) : List Element := (Lexeme.scan t).filterMap Lexeme.element?

@[simp] theorem namesOf_nil : namesOf [] = [] := rfl

theorem namesOf_append {rest : Text} (hr : OpensApart rest) (t : Text) :
    namesOf (t ++ rest) = namesOf t ++ namesOf rest := by
  simp only [namesOf,Lexeme.scan_append hr,List.filterMap_append]

theorem namesOf_cons {c : Char} (h : Apart c) (t : Text) : namesOf (c :: t) = namesOf t := by
  rw [namesOf,Lexeme.scan_cons h]
  rfl

theorem namesOf_spelling {p : Text × Element} (hp : p ∈ spellings) : namesOf p.1 = [p.2] := by
  rw [namesOf,Lexeme.scan_spelling hp]
  rfl

theorem namesOf_digits {t : Text} (h : ∀ c ∈ t, c.isDigit) : namesOf t = [] := by
  rw [namesOf,Lexeme.scan,Lexeme.scanFrom_digits h,List.filterMap_map]
  exact List.filterMap_eq_nil_iff.mpr fun _ _ => rfl

theorem foldl_keep_first (es : List Element) :
    es.foldl (fun found e => if e ∈ found then found else found ++ [e]) [] = es.eraseDups := by
  induction es using List.reverseRecOn with
  | nil => rfl
  | append_singleton es e ih =>
    rw [List.foldl_append,ih,List.eraseDups_append]
    by_cases he : e ∈ es <;> simp [he,List.removeAll,List.eraseDups_cons]

/-- With canonical names a condition names what it asks for. -/
theorem namesOf_canonical_name (c : Condition) :
    namesOf (canonical c.name) = [special c.measure.attribute] := by
  have happart := c.question.apart_letter
  rw [c.canonical_name,namesOf_append (opensApart_cons happart []),
    namesOf_spelling (name_mem_spellings c.measure.mem_spellings),namesOf_cons happart,namesOf_nil]
  rfl

theorem elements_eq (t : Text) : elements t =
    (namesOf ((Piece.ofText (normalize t)).flatMap Piece.bothOutcomes)).eraseDups :=
  foldl_keep_first _

namespace Tree

/-! ## Names of a tree -/

section Collect
variable {κ : Type}

/-- What terms and blocks give, from left to right and a block before its outcomes. -/
def collect (ofTerm : Spelling → List Element) (ofBlock : κ → Tree κ → Tree κ → List Element) :
    Tree κ → List Element
  | element s => ofTerm s
  | literal _ => []
  | group a => a.collect ofTerm ofBlock
  | block k yes no =>
    ofBlock k yes no ++ (yes.collect ofTerm ofBlock ++ no.collect ofTerm ofBlock)
  | join a _ b => a.collect ofTerm ofBlock ++ b.collect ofTerm ofBlock
  | lead _ a => a.collect ofTerm ofBlock
  | trail a _ => a.collect ofTerm ofBlock

/-- The elements of the terms of a tree. -/
def terms : Tree κ → List Element := collect (fun s => [s.element]) fun _ _ _ => []

theorem mem_collect_iff {ofTerm : Spelling → List Element}
    {ofBlock : κ → Tree κ → Tree κ → List Element} {t : Tree κ} {e : Element} :
    e ∈ t.collect ofTerm ofBlock ↔
      e ∈ t.collect ofTerm (fun _ _ _ => []) ∨ e ∈ t.collect (fun _ => []) ofBlock := by
  induction t with
  | element s => simp [collect]
  | literal l => simp [collect]
  | group a ih => exact ih
  | block k yes no ihy ihn =>
    simp only [collect,List.mem_append,ihy,ihn,List.not_mem_nil,false_or]
    rw [or_or_or_comm,or_left_comm]
  | join a o b iha ihb =>
    simp only [collect,List.mem_append,iha,ihb]
    exact or_or_or_comm
  | lead o a ih => exact ih
  | trail a o ih => exact ih

theorem collect_of_nil {ofTerm : Spelling → List Element}
    {ofBlock : κ → Tree κ → Tree κ → List Element} {t : Tree κ}
    (h : t.collect (fun _ => []) ofBlock = []) :
    t.collect ofTerm ofBlock = t.collect ofTerm fun _ _ _ => [] := by
  induction t with
  | element s => rfl
  | literal l => rfl
  | group a ih => exact ih h
  | block k yes no ihy ihn =>
    simp only [collect,List.append_eq_nil_iff] at h
    simp only [collect,h.1,ihy h.2.1,ihn h.2.2]
  | join a o b iha ihb =>
    simp only [collect,List.append_eq_nil_iff] at h
    simp only [collect,iha h.1,ihb h.2]
  | lead o a ih => exact ih h
  | trail a o ih => exact ih h

/-- The written form names the elements of its terms, and what the words before question marks
name. -/
theorem namesOf_text [Label κ] (t : Tree κ) : namesOf t.text =
    t.collect (fun s => [s.element]) fun k _ _ => namesOf (Label.text k) := by
  induction t with
  | element s => exact namesOf_spelling s.mem_spellings
  | literal l => exact namesOf_digits l.ascii
  | group a ih =>
    rw [text,namesOf_cons apart_open,namesOf_append (opensApart_cons apart_close []),ih,
      namesOf_cons apart_close,namesOf_nil,List.append_nil,collect]
  | block k yes no ihy ihn =>
    have hopen : Apart '{' := apart_of_mem_blockMarks (by decide)
    have hask : Apart '?' := apart_of_mem_blockMarks (by decide)
    have hcolon : Apart ':' := apart_of_mem_blockMarks (by decide)
    have hclose : Apart '}' := apart_of_mem_blockMarks (by decide)
    rw [text,Block.text,namesOf_cons hopen,namesOf_append (opensApart_cons hask _),
      namesOf_cons hask,namesOf_append (opensApart_cons hcolon _),namesOf_cons hcolon,
      namesOf_append (opensApart_cons hclose _),namesOf_cons hclose,namesOf_nil,List.append_nil,
      ihy,ihn,collect]
  | join a o b iha ihb =>
    rw [text,namesOf_append (opensApart_cons o.apart_sign _),namesOf_cons o.apart_sign,iha,ihb,
      collect]
  | lead o a ih => rw [text,namesOf_cons o.apart_sign,ih,collect]
  | trail a o ih =>
    rw [text,namesOf_append (opensApart_cons o.apart_sign []),namesOf_cons o.apart_sign,
      namesOf_nil,List.append_nil,ih,collect]

end Collect

/-! ## Both outcomes -/

/-- The tree with both outcomes of its innermost blocks added up. -/
def unwrapped {κ : Type} : Tree κ → Tree κ := rewriteInner fun _ yes no => join yes .plus no

theorem flatMap_bothOutcomes {κ : Type} [Label κ] (t : Tree κ) :
    (Piece.ofText t.text).flatMap Piece.bothOutcomes = t.unwrapped.text := by
  have h := flatMap_ofText_text (f := Piece.bothOutcomes)
    (g := fun _ yes no => join yes .plus no) (fun _ => rfl) (fun _ _ _ => rfl) t []
  rw [List.append_nil] at h
  rw [h]
  exact List.append_nil _

theorem blocks_normal (t : Tree Condition) : t.normal.blocks = t.blocks := by
  induction t <;> simp_all only [normal,blocks]

/-! ## Conditions that are listed -/

/-- The condition of a block around other blocks, as the attribute that it asks for. -/
def outerAsks (c : Condition) (yes no : Tree Condition) : List Element :=
  if yes.blocks + no.blocks = 0 then [] else [special c.measure.attribute]

/-- What the conditions of blocks around other blocks ask for. -/
def asked : Tree Condition → List Element := collect (fun _ => []) outerAsks

/-- The elements of the terms, with what the conditions of blocks around other blocks ask for before
the elements of these blocks. -/
def listed : Tree Condition → List Element := collect (fun s => [s.element]) outerAsks

theorem collect_unwrapped_normal (t : Tree Condition) :
    t.normal.unwrapped.collect (fun s => [s.element]) (fun k _ _ => namesOf (Label.text k)) =
      t.listed := by
  unfold unwrapped listed
  induction t with
  | element s => rfl
  | literal l => rfl
  | group a ih => exact ih
  | block c yes no ihy ihn =>
    by_cases h : yes.blocks + no.blocks = 0
    · -- an innermost block loses its condition and is a sum of two trees without blocks
      have hyes : yes.normal.blocks = 0 := by rw [blocks_normal]; omega
      have hno : no.normal.blocks = 0 := by rw [blocks_normal]; omega
      rw [rewriteInner_of_flat hyes] at ihy
      rw [rewriteInner_of_flat hno] at ihn
      simp only [normal,rewriteInner,blocks_normal,h,if_true,collect,outerAsks,ihy,ihn,
        List.nil_append]
    · have hwords : namesOf (Label.text (Wording.mk c true)) = [special c.measure.attribute] :=
        namesOf_canonical_name c
      simp only [normal,rewriteInner,blocks_normal,h,if_false,ne_eq,not_false_eq_true,decide_true,
        collect,outerAsks,hwords,ihy,ihn]
  | join a o b iha ihb => simp only [normal,rewriteInner,collect,iha,ihb]
  | lead o a ih => exact ih
  | trail a o ih => exact ih

end Tree

theorem elements_text_eq (t : Tree Condition) : elements t.text = t.listed.eraseDups := by
  rw [elements_eq,Tree.normalize_text,Tree.flatMap_bothOutcomes,Tree.namesOf_text,
    Tree.collect_unwrapped_normal]

/-- The elements of an expression, without repetition and in order of first appearance, are those of
its terms and those that the conditions of blocks around other blocks ask for. The conditions of
other blocks are left out, and an expression without blocks around blocks has just the elements of
its terms. -/
theorem elements_text (t : Tree Condition) :
    elements t.text = t.listed.eraseDups ∧
      (t.asked = [] → elements t.text = t.terms.eraseDups) ∧
      ∀ e, e ∈ elements t.text ↔ e ∈ t.terms ∨ e ∈ t.asked := by
  refine ⟨elements_text_eq t,fun h => ?_,fun e => ?_⟩
  · rw [elements_text_eq,Tree.listed,Tree.collect_of_nil h]
    rfl
  · rw [elements_text_eq,List.mem_eraseDups]
    exact Tree.mem_collect_iff

/-- The special number is asked for and not listed, and an element with two spellings is listed
once. -/
theorem elements_shallow :
    let t : Tree Condition := .join
      (.block ⟨.number,.large⟩ (.element ⟨['特','尾'],.special .tail,by decide +kernel⟩)
        (.element ⟨['期','尾'],.period .tail,by decide +kernel⟩))
      .minus (.element ⟨['特','码','尾'],.special .tail,by decide +kernel⟩)
    t.asked = [] ∧ elements t.text = [.special .tail,.period .tail] := by
  intro t
  have hasked : t.asked = [] := rfl
  have helements := (elements_text t).2.1 hasked
  refine ⟨hasked,?_⟩
  rw [helements]
  rfl

/-- The block within keeps the condition around it from being read as one, and it is listed. -/
theorem elements_lists_condition :
    (blockWithin .number).terms = [] ∧
      elements (blockWithin .number).text = [.special .number] := by
  refine ⟨rfl,?_⟩
  rw [elements_text_eq]
  rfl

end DrawFormula.Expression
