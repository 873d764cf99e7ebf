import DrawFormula.Proofs.Expression.Evaluation
import DrawFormula.Proofs.Expression.Written

/-! # Normalising expressions

Normalising the written form of a tree spells every element with its canonical name. A block around
other blocks is not read as a block, so the words of its condition are respelled too, and a condition
on the special number itself then has no meaning and counts as false. Apart from that an expression
keeps its value.
-/
namespace DrawFormula.Expression
open Element

/-! ## Conditions with canonical names -/

/-- What a measure of the special number is called as an attribute. -/
def Measure.attribute : Measure → Attribute
  | number => .number
  | tail => .tail
  | head => .head
  | digitSum => .digitSum

theorem Measure.mem_spellings (m : Measure) :
    (['特',m.letter],special m.attribute) ∈ spellings := by
  cases m <;> decide +kernel

/-- The words for questions occur in no spelling. -/
theorem Question.apart_letter (q : Question) : Apart q.letter := by
  have table : ∀ p ∈ spellings, ∀ c ∈ ['大','小','单','双'], c ∉ p.1 := by decide +kernel
  have hletter : q.letter ∈ ['大','小','单','双'] := by cases q <;> decide
  refine ⟨fun p hp => table p hp _ hletter,?_⟩
  cases q <;> decide

/-- With canonical names a condition begins with the name of the attribute that it asks for. -/
theorem Condition.canonical_name (c : Condition) :
    canonical c.name = (special c.measure.attribute).name ++ [c.question.letter] := by
  have hname : c.name = ['特',c.measure.letter] ++ [c.question.letter] := rfl
  rw [hname,canonical_append (opensApart_cons c.question.apart_letter []),
    canonical_spelling c.measure.mem_spellings,canonical_cons c.question.apart_letter,canonical_nil]

/-! ## Normal trees -/

/-- The condition of a block, in its own words or with canonical names. -/
structure Wording where
  condition : Condition
  respelled : Bool

/-- The words of the condition. -/
def Wording.text (w : Wording) : Text :=
  if w.respelled then canonical w.condition.name else w.condition.name

theorem Wording.isField_text (w : Wording) : Block.IsField '?' w.text := by
  have hname := Condition.isField_name w.condition
  unfold Wording.text
  split
  · refine ⟨?_,inField_canonical (by decide) hname.2⟩
    rw [canonical_eq,ne_eq,canonicalFrom_eq_nil_iff]
    exact hname.1
  · exact hname

instance : Label Wording := ⟨Wording.text,Wording.isField_text⟩

/-- The canonical spelling of the same element. -/
def Spelling.canonical (s : Spelling) : Spelling :=
  ⟨s.element.name,s.element,name_mem_spellings s.mem_spellings⟩

namespace Tree

/-- The tree with canonical names, also in the conditions of blocks around other blocks. -/
def normal : Tree Condition → Tree Wording
  | element s => element s.canonical
  | literal l => literal l
  | group a => group a.normal
  | block c yes no => block ⟨c,yes.blocks + no.blocks ≠ 0⟩ yes.normal no.normal
  | join a o b => join a.normal o b.normal
  | lead o a => lead o a.normal
  | trail a o => trail a.normal o

theorem canonical_digits {t : Text} (h : ∀ c ∈ t, c.isDigit) : canonical t = t := by
  rw [canonical,Lexeme.scan,Lexeme.scanFrom_digits h]
  induction t with
  | nil => rfl
  | cons c t ih => simpa [Lexeme.text] using ih fun d hd => h d (by simp [hd])

theorem not_mem_of_flat {t : Tree Condition} (h : t.blocks = 0) : '{' ∉ t.text :=
  fun hmem => (inner_of_mem_text h hmem).1 rfl

theorem respell_text_of_flat {t : Tree Condition} (h : t.blocks = 0)
    (ht : respell (t.text ++ []) = t.normal.text ++ respell []) :
    canonical t.text = t.normal.text := by
  rwa [List.append_nil,respell_nil,List.append_nil,respell_eq_canonical (not_mem_of_flat h)] at ht

/-- A block around other blocks is respelled character by character, its condition included. -/
theorem respell_outer_block (c : Condition) {yes no : Tree Condition}
    (h : yes.blocks + no.blocks ≠ 0) (rest : Text) :
    respell ((block c yes no).text ++ rest) = '{' :: (canonical c.name ++
      '?' :: respell (yes.text ++ ':' :: (no.text ++ '}' :: rest))) := by
  have hopen := leading?_block_eq_none c h rest
  have hname : '{' ∉ c.name := by
    intro hmem
    have hin := (Condition.isField_name c).2 _ hmem
    simp [Block.inField] at hin
  have hask : Apart '?' := apart_of_mem_blockMarks (by decide)
  have hlabel : Label.text c = c.name := rfl
  simp only [text,Block.text,List.cons_append,List.append_assoc,List.nil_append,hlabel] at hopen ⊢
  rw [respell_cons (apart_of_mem_blockMarks (by decide)) hopen,
    respell_append hname (opensApart_cons hask _),respell_cons_of_ne hask (by decide)]

/-- Canonical names in the text are canonical names in the tree, with any text behind it that is
kept apart. -/
theorem respell_text (t : Tree Condition) {rest : Text} (hr : OpensApart rest) :
    respell (t.text ++ rest) = t.normal.text ++ respell rest := by
  induction t generalizing rest with
  | element s =>
    have hbrace : '{' ∉ s.text := fun hmem => (inner_of_mem_spelling s hmem).1 rfl
    rw [text,respell_append hbrace hr,canonical_spelling s.mem_spellings]
    rfl
  | literal l =>
    have hbrace : '{' ∉ l.digits := fun hmem => (inner_of_mem_literal l hmem).1 rfl
    rw [text,respell_append hbrace hr,canonical_digits l.ascii]
    rfl
  | group a ih =>
    simp only [text,normal,List.cons_append,List.append_assoc,List.nil_append]
    rw [respell_cons_of_ne apart_open (by decide),ih (opensApart_cons apart_close rest),
      respell_cons_of_ne apart_close (by decide)]
  | block c yes no ihy ihn =>
    by_cases h : yes.blocks + no.blocks = 0
    · have hflat : yes.blocks = 0 ∧ no.blocks = 0 := by omega
      have hyes := respell_text_of_flat hflat.1 (ihy opensApart_nil)
      have hno := respell_text_of_flat hflat.2 (ihn opensApart_nil)
      rw [text,respell_block (proper_block c hflat.1 hflat.2)]
      simp only [hyes,hno,normal,text,h,ne_eq,not_true_eq_false,decide_false]
      rfl
    · have hcolon : Apart ':' := apart_of_mem_blockMarks (by decide)
      have hclose : Apart '}' := apart_of_mem_blockMarks (by decide)
      have hwords : Label.text (Wording.mk c true) = canonical c.name := rfl
      rw [respell_outer_block c h,ihy (opensApart_cons hcolon _),
        respell_cons_of_ne hcolon (by decide),ihn (opensApart_cons hclose _),
        respell_cons_of_ne hclose (by decide)]
      simp only [normal,text,Block.text,List.cons_append,List.append_assoc,List.nil_append,ne_eq,h,
        not_false_eq_true,decide_true,hwords]
  | join a o b iha ihb =>
    simp only [text,normal,List.cons_append,List.append_assoc]
    rw [iha (opensApart_cons o.apart_sign _),respell_cons_of_ne o.apart_sign (inner_sign o).1,
      ihb hr]
  | lead o a ih =>
    simp only [text,normal,List.cons_append]
    rw [respell_cons_of_ne o.apart_sign (inner_sign o).1,ih hr]
  | trail a o ih =>
    simp only [text,normal,List.cons_append,List.append_assoc,List.nil_append]
    rw [ih (opensApart_cons o.apart_sign _),respell_cons_of_ne o.apart_sign (inner_sign o).1]

/-- The normal form of a written tree is the written normal tree. -/
theorem normalize_text (t : Tree Condition) : normalize t.text = t.normal.text := by
  have h := respell_text t opensApart_nil
  rwa [List.append_nil,respell_nil,List.append_nil,← normalize_eq_respell] at h

/-! ## What becomes of conditions -/

/-- The tree without the blocks around other blocks that ask for the special number itself: each of
them is its text for no. -/
def unasked : Tree Condition → Tree Condition
  | element s => element s
  | literal l => literal l
  | group a => group a.unasked
  | block c yes no =>
    if yes.blocks + no.blocks ≠ 0 ∧ c.measure = .number then no.unasked
    else block c yes.unasked no.unasked
  | join a o b => join a.unasked o b.unasked
  | lead o a => lead o a.unasked
  | trail a o => trail a.unasked o

/-- Every block around other blocks that asks for the special number itself has to do without its
text for yes. -/
def Denied (special : ℤ) : Tree Condition → Prop
  | element _ => True
  | literal _ => True
  | group a => a.Denied special
  | block c yes no =>
    (yes.blocks + no.blocks ≠ 0 ∧ c.measure = .number → c.holds special = false) ∧
      yes.Denied special ∧ no.Denied special
  | join a _ b => a.Denied special ∧ b.Denied special
  | lead _ a => a.Denied special
  | trail a _ => a.Denied special

theorem mem_allConditions (c : Condition) : c ∈ Condition.all := by
  rcases c with ⟨m,q⟩
  cases m <;> cases q <;> decide

/-- With canonical names a condition on the special number itself has no meaning. -/
theorem ofText?_canonical (c : Condition) :
    Condition.ofText? (canonical c.name) = if c.measure = .number then none else some c := by
  rw [Condition.canonical_name]
  rcases c with ⟨m,q⟩
  cases m <;> cases q <;> decide

theorem conditionHolds_wording (c : Condition) (respelled : Bool) (special : ℤ) :
    conditionHolds (Label.text (Wording.mk c respelled)) special =
      if respelled ∧ c.measure = .number then false else c.holds special := by
  cases respelled with
  | false => exact conditionHolds_name c special
  | true =>
    have hwords : Label.text (Wording.mk c true) = canonical c.name := rfl
    rw [hwords,conditionHolds,ofText?_canonical]
    by_cases h : c.measure = .number <;> simp [h]

theorem lexemes_chosen_normal (special : ℤ) (t : Tree Condition) :
    (t.normal.chosen special).lexemes = (t.unasked.chosen special).lexemes := by
  induction t with
  | element s => rfl
  | literal l => rfl
  | group a ih => simp only [normal,unasked,chosen,lexemes,ih]
  | block c yes no ihy ihn =>
    have hname : conditionHolds (Label.text c) special = c.holds special :=
      conditionHolds_name c special
    simp only [normal,unasked,chosen,conditionHolds_wording,decide_eq_true_eq]
    split
    · exact ihn
    · rw [chosen,hname]
      split
      · exact ihy
      · exact ihn
  | join a o b iha ihb => simp only [normal,unasked,chosen,lexemes,iha,ihb]
  | lead o a ih => simp only [normal,unasked,chosen,lexemes,ih]
  | trail a o ih => simp only [normal,unasked,chosen,lexemes,ih]

theorem chosen_unasked {special : ℤ} {t : Tree Condition} (h : t.Denied special) :
    t.unasked.chosen special = t.chosen special := by
  induction t with
  | element s => rfl
  | literal l => rfl
  | group a ih => simp only [unasked,chosen,ih h]
  | block c yes no ihy ihn =>
    have hname : conditionHolds (Label.text c) special = c.holds special :=
      conditionHolds_name c special
    simp only [unasked]
    split
    · next hc => simp only [chosen,hname,h.1 hc,ihn h.2.2,Bool.false_eq_true,if_false]
    · simp only [chosen,ihy h.2.1,ihn h.2.2]
  | join a o b iha ihb => simp only [unasked,chosen,iha h.1,ihb h.2]
  | lead o a ih => simp only [unasked,chosen,ih h]
  | trail a o ih => simp only [unasked,chosen,ih h]

theorem inRange_unasked {t : Tree Condition} (h : t.InRange) : t.unasked.InRange := by
  induction t with
  | element s => exact h
  | literal l => exact h
  | group a ih => exact ih h
  | block c yes no ihy ihn =>
    simp only [unasked]
    split
    · exact ihn h.2
    · exact ⟨ihy h.1,ihn h.2⟩
  | join a o b iha ihb => exact ⟨iha h.1,ihb h.2⟩
  | lead o a ih => exact ih h
  | trail a o ih => exact ih h

/-- Only the lexemes of the chosen branches have an influence on a value. -/
theorem evaluate_congr {κ κ' : Type} [Label κ] [Label κ'] {t : Tree κ} {u : Tree κ'} {d : Draw}
    (h : (t.chosen d.special).lexemes = (u.chosen d.special).lexemes) (sorted : Bool)
    (cache : Element.Cache) : evaluate t.text d sorted cache = evaluate u.text d sorted cache := by
  simp only [evaluate,substitute,resolve_text,scan_text,h]

end Tree

/-- The normal form of an expression has the value of the expression without the blocks around
others that ask for the special number itself, and the value of the expression as long as the
answers of all those blocks are no. -/
theorem evaluate_normalize_text (t : Tree Condition) (d : Draw) (sorted : Bool)
    (cache : Element.Cache) :
    evaluate (normalize t.text) d sorted cache = evaluate t.unasked.text d sorted cache ∧
      (t.Denied d.special →
        evaluate (normalize t.text) d sorted cache = evaluate t.text d sorted cache) ∧
      (t.InRange → ((evaluate (normalize t.text) d sorted (Memo.empty 0)).1 =
        (evaluate t.text d sorted (Memo.empty 0)).1 ↔
          t.unasked.value d sorted = t.value d sorted)) := by
  have hnormal : ∀ cache : Element.Cache,
      evaluate (normalize t.text) d sorted cache = evaluate t.unasked.text d sorted cache := by
    intro cache
    rw [Tree.normalize_text]
    exact Tree.evaluate_congr (Tree.lexemes_chosen_normal d.special t) sorted cache
  refine ⟨hnormal cache,fun h => ?_,fun h => ?_⟩
  · rw [hnormal]
    exact Tree.evaluate_congr (congrArg Tree.lexemes (Tree.chosen_unasked h)) sorted cache
  · rw [hnormal,Tree.evaluate_eq_value d sorted h rfl,
      Tree.evaluate_eq_value d sorted (Tree.inRange_unasked h) rfl]
    simp

/-- A block on the special number within a block that asks for a measure of it. -/
def blockWithin (m : Measure) : Tree Condition :=
  .block ⟨m,.large⟩
    (.block ⟨.number,.large⟩ (.literal ⟨['1'],by decide,by decide⟩)
      (.literal ⟨['2'],by decide,by decide⟩))
    (.literal ⟨['3'],by decide,by decide⟩)

theorem evaluate_normalize_blockWithin :
    (blockWithin .head).Denied largeEvenDraw.special ∧ (blockWithin .number).InRange ∧
      evaluate (normalize (blockWithin .head).text) largeEvenDraw false (Memo.empty 0) =
        evaluate (blockWithin .head).text largeEvenDraw false (Memo.empty 0) ∧
      (evaluate (normalize (blockWithin .number).text) largeEvenDraw false (Memo.empty 0)).1 ≠
        (evaluate (blockWithin .number).text largeEvenDraw false (Memo.empty 0)).1 := by
  have hdenied : (blockWithin .head).Denied largeEvenDraw.special :=
    ⟨fun h => (nomatch h.2),⟨fun h => absurd rfl h.1,trivial,trivial⟩,trivial⟩
  have hrange : (blockWithin .number).InRange := by decide
  have hhead := evaluate_normalize_text (blockWithin .head) largeEvenDraw false (Memo.empty 0)
  have hnumber := evaluate_normalize_text (blockWithin .number) largeEvenDraw false (Memo.empty 0)
  refine ⟨hdenied,hrange,hhead.2.1 hdenied,fun he => ?_⟩
  have hvalue := (hnumber.2.2 hrange).mp he
  exact absurd hvalue (by decide +kernel)

/-- The outer condition loses its meaning, and the value changes from 1 to 3. -/
theorem normalize_changes_value :
    let e : Text := ['{','特','码','大','?','{','特','码','大','?','1',':','2','}',':','3','}']
    normalize e = ['{','特','号','大','?','{','特','码','大','?','1',':','2','}',':','3','}'] ∧
      (evaluate e largeEvenDraw false (Memo.empty 0)).1 = .ok 1 ∧
      (evaluate (normalize e) largeEvenDraw false (Memo.empty 0)).1 = .ok 3 := by
  decide +kernel

end DrawFormula.Expression
