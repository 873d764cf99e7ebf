import DrawFormula.Proofs.Expression.Block
import DrawFormula.Proofs.Expression.Lexeme
import DrawFormula.Proofs.Text.Decimal

/-! # Trees of the expression language

A tree stands for one way of writing an expression: names and literals, groups in parentheses and
conditional blocks, joined by one operator or more, with further operators before and after. The
shape of a block's condition is a parameter, so that a tree without conditions has no blocks.
-/
namespace DrawFormula.Expression
open Element

/-! ## Terms -/

/-- A spelling of an element. -/
structure Spelling where
  text : Text
  element : Element
  mem_spellings : (text,element) ∈ spellings

/-- A literal number, written in ASCII digits. -/
structure Literal where
  digits : Text
  digits_ne_nil : digits ≠ []
  ascii : ∀ c ∈ digits, c.isDigit

/-- The operators, all of which count as plus. -/
inductive Operator where
  | plus | minus | asterisk | times | slash | obelus | percent
deriving DecidableEq, Repr

/-- The sign of an operator. -/
def Operator.sign : Operator → Char
  | plus => '+'
  | minus => '-'
  | asterisk => '*'
  | times => '×'
  | slash => '/'
  | obelus => '÷'
  | percent => '%'

/-- What stands before the question mark of a block. -/
class Label (κ : Type) where
  text : κ → Text
  isField : ∀ k, Block.IsField '?' (text k)

/-- No label at all. -/
instance : Label Empty := ⟨nofun,nofun⟩

theorem Condition.isField_name (c : Condition) : Block.IsField '?' c.name := by
  rcases c with ⟨m,q⟩
  refine ⟨by simp [name],?_⟩
  cases m <;> cases q <;> decide

instance : Label Condition := ⟨Condition.name,Condition.isField_name⟩

/-- Expressions whose blocks are labelled by `κ`. -/
inductive Tree (κ : Type) where
  | element (s : Spelling)
  | literal (l : Literal)
  | group (a : Tree κ)
  | block (k : κ) (yes no : Tree κ)
  | join (a : Tree κ) (o : Operator) (b : Tree κ)
  | lead (o : Operator) (a : Tree κ)
  | trail (a : Tree κ) (o : Operator)

namespace Tree
variable {κ : Type}

section Written
variable [Label κ]

/-- The written form. -/
def text : Tree κ → Text
  | element s => s.text
  | literal l => l.digits
  | group a => '(' :: (a.text ++ [')'])
  | block k yes no => Block.text ⟨Label.text k,yes.text,no.text⟩
  | join a o b => a.text ++ o.sign :: b.text
  | lead o a => o.sign :: a.text
  | trail a o => a.text ++ [o.sign]

end Written

/-- How many blocks a tree has. -/
def blocks : Tree κ → ℕ
  | element _ => 0
  | literal _ => 0
  | group a => a.blocks
  | block _ yes no => yes.blocks + no.blocks + 1
  | join a _ b => a.blocks + b.blocks
  | lead _ a => a.blocks
  | trail a _ => a.blocks

/-! ## Characters of the written form -/

/-- A character of block-free text: no mark of a block. -/
def Inner (c : Char) : Prop := c ≠ '{' ∧ c ≠ '}' ∧ c ≠ '?' ∧ c ≠ ':'

instance (c : Char) : Decidable (Inner c) := inferInstanceAs (Decidable (_ ∧ _))

theorem inner_iff_toNat {c : Char} :
    Inner c ↔ c.toNat ≠ 123 ∧ c.toNat ≠ 125 ∧ c.toNat ≠ 63 ∧ c.toNat ≠ 58 := by
  simp only [Inner,ne_eq,← Char.toNat_inj]
  rfl

theorem inField_of_inner {stop c : Char} (hs : stop ∈ ['?',':','}']) (h : Inner c) :
    Block.inField stop c = true := by
  obtain ⟨ho,hc,hq,hd⟩ := h
  simp only [List.mem_cons,List.not_mem_nil,or_false] at hs
  rcases hs with rfl | rfl | rfl <;> simp [Block.inField, *]

theorem inner_of_mem_spelling (s : Spelling) {c : Char} (h : c ∈ s.text) : Inner c := by
  have hc := mem_spelling s.mem_spellings h
  rw [inner_iff_toNat]
  omega

theorem inner_of_mem_literal (l : Literal) {c : Char} (h : c ∈ l.digits) : Inner c := by
  have hc := Text.toNat_of_isDigit (l.ascii c h)
  rw [inner_iff_toNat]
  omega

theorem inner_sign (o : Operator) : Inner o.sign := by cases o <;> decide

section Written
variable [Label κ]

theorem text_ne_nil (t : Tree κ) : t.text ≠ [] := by
  cases t with
  | element s => exact spelling_ne_nil s.mem_spellings
  | literal l => exact l.digits_ne_nil
  | group a => simp [text]
  | block k yes no => simp [text,Block.text]
  | join a o b => simp [text]
  | lead o a => simp [text]
  | trail a o => simp [text]

theorem inner_of_mem_text {t : Tree κ} (h : t.blocks = 0) {c : Char} (hc : c ∈ t.text) :
    Inner c := by
  induction t with
  | element s => exact inner_of_mem_spelling s hc
  | literal l => exact inner_of_mem_literal l hc
  | group a ih =>
    simp only [text,List.mem_cons,List.mem_append,List.not_mem_nil,or_false] at hc
    rcases hc with rfl | hc | rfl
    · decide
    · exact ih h hc
    · decide
  | block k yes no => simp [blocks] at h
  | join a o b iha ihb =>
    simp only [blocks,Nat.add_eq_zero_iff] at h
    simp only [text,List.mem_append,List.mem_cons] at hc
    rcases hc with hc | rfl | hc
    · exact iha h.1 hc
    · exact inner_sign o
    · exact ihb h.2 hc
  | lead o a ih =>
    rcases List.mem_cons.mp hc with rfl | hc
    · exact inner_sign o
    · exact ih h hc
  | trail a o ih =>
    simp only [text,List.mem_append,List.mem_singleton] at hc
    rcases hc with hc | rfl
    · exact ih h hc
    · exact inner_sign o

theorem isField_text {t : Tree κ} (h : t.blocks = 0) {stop : Char} (hs : stop ∈ ['?',':','}']) :
    Block.IsField stop t.text :=
  ⟨t.text_ne_nil,fun _ hc => inField_of_inner hs (inner_of_mem_text h hc)⟩

/-- A block without blocks inside is read back. -/
theorem proper_block (k : κ) {yes no : Tree κ} (hy : yes.blocks = 0) (hn : no.blocks = 0) :
    Block.Proper ⟨Label.text k,yes.text,no.text⟩ :=
  ⟨Label.isField k,isField_text hy (by simp),isField_text hn (by simp)⟩

/-- A text with a block holds no mark of a block before the first opening brace. -/
theorem exists_text_eq_append {t : Tree κ} (h : t.blocks ≠ 0) :
    ∃ pre post, t.text = pre ++ '{' :: post ∧ ∀ c ∈ pre, Inner c := by
  induction t with
  | element s => exact absurd rfl h
  | literal l => exact absurd rfl h
  | group a ih =>
    obtain ⟨pre,post,ha,hpre⟩ := ih h
    exact ⟨'(' :: pre,post ++ [')'],by simp [text,ha],by simpa using ⟨by decide,hpre⟩⟩
  | block k yes no => exact ⟨[],_,rfl,by simp⟩
  | join a o b iha ihb =>
    by_cases ha : a.blocks = 0
    · have hb : b.blocks ≠ 0 := by simpa [blocks,ha] using h
      obtain ⟨pre,post,hb,hpre⟩ := ihb hb
      refine ⟨a.text ++ o.sign :: pre,post,by simp [text,hb],?_⟩
      intro c hc
      simp only [List.mem_append,List.mem_cons] at hc
      rcases hc with hc | rfl | hc
      · exact inner_of_mem_text ha hc
      · exact inner_sign o
      · exact hpre c hc
    · obtain ⟨pre,post,ha,hpre⟩ := iha ha
      exact ⟨pre,post ++ o.sign :: b.text,by simp [text,ha],hpre⟩
  | lead o a ih =>
    obtain ⟨pre,post,ha,hpre⟩ := ih h
    exact ⟨o.sign :: pre,post,by simp [text,ha],by simpa using ⟨inner_sign o,hpre⟩⟩
  | trail a o ih =>
    obtain ⟨pre,post,ha,hpre⟩ := ih h
    exact ⟨pre,post ++ [o.sign],by simp [text,ha],hpre⟩

/-- A text with a block is no field: its first brace comes too early. -/
theorem field?_text_eq_none {t : Tree κ} (h : t.blocks ≠ 0) (stop : Char)
    (hs : stop ∈ [':','}']) (rest : Text) : Block.field? stop (t.text ++ rest) = none := by
  obtain ⟨pre,post,ht,hpre⟩ := exists_text_eq_append h
  have hs' : stop ∈ ['?',':','}'] := List.mem_cons_of_mem _ hs
  rw [ht,List.append_assoc,List.cons_append]
  apply Block.field?_eq_none (fun c hc => inField_of_inner hs' (hpre c hc)) (by simp [Block.inField])
  rintro rfl
  simp at hs

/-- A block around other blocks is not read as a block yet. -/
theorem leading?_block_eq_none (k : κ) {yes no : Tree κ} (h : yes.blocks + no.blocks ≠ 0)
    (rest : Text) : Block.leading? ((block k yes no).text ++ rest) = none := by
  have hk := Block.field?_eq_some_iff.mpr ⟨Label.isField k,
    (rfl : Label.text k ++ '?' :: (yes.text ++ ':' :: (no.text ++ '}' :: rest)) = _)⟩
  by_cases hy : yes.blocks = 0
  · have hyes := Block.field?_eq_some_iff.mpr ⟨isField_text hy (by simp),
      (rfl : yes.text ++ ':' :: (no.text ++ '}' :: rest) = _)⟩
    have hno := field?_text_eq_none (t := no) (by omega) '}' (by simp) ('}' :: rest)
    simp [text,Block.text,Block.leading?,hk,hyes,hno]
  · have hyes := field?_text_eq_none hy ':' (by simp) (':' :: (no.text ++ '}' :: rest))
    simp [text,Block.text,Block.leading?,hk,hyes]

end Written

end Tree

end DrawFormula.Expression
