import DrawFormula.Expression.Normal
import DrawFormula.Proofs.Element.Spelling

/-! # Reading lexemes

A text is read lexeme by lexeme: either a spelling with all that follows it, or one character. The
lexemes of a text and of what is kept apart from it are the lexemes of both, one after the other.
-/
namespace DrawFormula.Expression
open Element

namespace Lexeme

/-! ## One lexeme at a time -/

theorem scanFrom_skip (before : Option Char) (s rest : Text) :
    scanFrom before s.length (s ++ rest) = scanFrom (s.getLast?.or before) 0 rest := by
  induction s generalizing before with
  | nil => rfl
  | cons c s ih =>
    have hlast : (c :: s).getLast?.or before = s.getLast?.or (some c) := by
      cases s <;> simp [List.getLast?_cons]
    rw [List.cons_append,List.length_cons,scanFrom,ih,hlast]

theorem scanFrom_name {before : Option Char} {p : Text × Element} {rest : Text}
    (h : leading? before (p.1 ++ rest) = some p) :
    scanFrom before 0 (p.1 ++ rest) = name p.2 :: scanFrom p.1.getLast? 0 rest := by
  obtain ⟨s,e⟩ := p
  have hmem := (leading?_eq_some_iff.mp h).2.1
  cases s with
  | nil => exact absurd rfl (spelling_ne_nil hmem)
  | cons c s =>
    have hlast : (c :: s).getLast? = s.getLast?.or (some c) := by
      cases s <;> simp [List.getLast?_cons]
    simp only [List.cons_append] at h
    simp only [List.cons_append,scanFrom,h,List.length_cons,Nat.add_sub_cancel,scanFrom_skip,hlast]

theorem scanFrom_char {before : Option Char} {c : Char} {rest : Text}
    (h : leading? before (c :: rest) = none) :
    scanFrom before 0 (c :: rest) = char c :: scanFrom (some c) 0 rest := by
  simp only [scanFrom,h]

/-- Induction along the lexemes of a text. -/
theorem scan_induction {motive : Option Char → Text → Prop} (nil : ∀ before, motive before [])
    (name : ∀ before (p : Text × Element) rest, leading? before (p.1 ++ rest) = some p →
      motive p.1.getLast? rest → motive before (p.1 ++ rest))
    (char : ∀ before c rest, leading? before (c :: rest) = none →
      motive (some c) rest → motive before (c :: rest))
    (before : Option Char) (t : Text) : motive before t := by
  induction hn : t.length using Nat.strong_induction_on generalizing before t with
  | _ n ih =>
    cases t with
    | nil => exact nil before
    | cons c t =>
      cases h : leading? before (c :: t) with
      | none =>
        exact char before c t h (ih t.length (by simp [← hn]) _ _ rfl)
      | some p =>
        obtain ⟨_,hmem,⟨rest,hrest⟩,_⟩ := leading?_eq_some_iff.mp h
        have hpos := (spelling_length hmem).1
        have hlen : rest.length < n := by
          rw [← hn,← hrest,List.length_append]
          omega
        rw [← hrest] at h ⊢
        exact name before p rest h (ih rest.length hlen _ _ rfl)

/-! ## What is kept apart -/

theorem leading?_eq_none_of_opensApart {before : Option Char} {t : Text} (h : OpensApart t) :
    leading? before t = none := by
  rw [← List.nil_append t,leading?_append h,leading?_eq_none_iff]
  right
  intro p hp hn
  exact spelling_ne_nil hp (List.prefix_nil.mp hn)

/-- Only a digit sign before a text has an influence on its lexemes. -/
theorem scanFrom_of_not_digitSign {c : Char} (h : Text.isDigitSign c = false) (t : Text) :
    scanFrom (some c) 0 t = scan t := by
  cases t with
  | nil => rfl
  | cons d t =>
    have hl : leading? (some c) (d :: t) = leading? none (d :: t) := by
      simp [leading?,continuesNumeral,h]
    simp only [scan,scanFrom,hl]

theorem scanFrom_of_opensApart {before : Option Char} {t : Text} (h : OpensApart t) :
    scanFrom before 0 t = scan t := by
  cases t with
  | nil => rfl
  | cons c t =>
    rw [scan,scanFrom_char (leading?_eq_none_of_opensApart h),
      scanFrom_char (leading?_eq_none_of_opensApart h)]

theorem scanFrom_append {rest : Text} (hr : OpensApart rest) (before : Option Char) (t : Text) :
    scanFrom before 0 (t ++ rest) = scanFrom before 0 t ++ scan rest := by
  induction before, t using scan_induction with
  | nil before => exact scanFrom_of_opensApart hr
  | name before p t h ih =>
    have h' : leading? before (p.1 ++ (t ++ rest)) = some p := by
      rw [← List.append_assoc,leading?_append hr,h]
    rw [List.append_assoc,scanFrom_name h',scanFrom_name h,ih,List.cons_append]
  | char before c t h ih =>
    have h' : leading? before (c :: (t ++ rest)) = none := by
      rw [← List.cons_append,leading?_append hr,h]
    rw [List.cons_append,scanFrom_char h',scanFrom_char h,ih,List.cons_append]

theorem scan_append {rest : Text} (hr : OpensApart rest) (t : Text) :
    scan (t ++ rest) = scan t ++ scan rest := scanFrom_append hr none t

theorem scan_cons {c : Char} (h : Apart c) (t : Text) : scan (c :: t) = char c :: scan t := by
  rw [scan,scanFrom_char (leading?_eq_none_of_opensApart (opensApart_cons h t)),
    scanFrom_of_not_digitSign h.2]

/-- A spelling on its own is one lexeme. -/
theorem scan_spelling {p : Text × Element} (hp : p ∈ spellings) : scan p.1 = [name p.2] := by
  have h : leading? none (p.1 ++ []) = some p := by
    rw [List.append_nil]
    exact leading?_spelling hp (by simp [continuesNumeral])
  rw [scan]
  simpa [scanFrom] using scanFrom_name h

end Lexeme

/-! ## Canonical names -/

/-- The text with canonical names after the character `before`. -/
def canonicalFrom (before : Option Char) (t : Text) : Text :=
  (Lexeme.scanFrom before 0 t).flatMap Lexeme.text

theorem canonical_eq (t : Text) : canonical t = canonicalFrom none t := rfl

@[simp] theorem canonicalFrom_nil (before : Option Char) : canonicalFrom before [] = [] := rfl

theorem canonicalFrom_name {before : Option Char} {p : Text × Element} {rest : Text}
    (h : leading? before (p.1 ++ rest) = some p) :
    canonicalFrom before (p.1 ++ rest) = p.2.name ++ canonicalFrom p.1.getLast? rest := by
  rw [canonicalFrom,Lexeme.scanFrom_name h]
  rfl

theorem canonicalFrom_char {before : Option Char} {c : Char} {rest : Text}
    (h : leading? before (c :: rest) = none) :
    canonicalFrom before (c :: rest) = c :: canonicalFrom (some c) rest := by
  rw [canonicalFrom,Lexeme.scanFrom_char h]
  rfl

/-- The characters of the result come from the text or from canonical names. -/
theorem mem_canonicalFrom {before : Option Char} {t : Text} {c : Char}
    (h : c ∈ canonicalFrom before t) : c ∈ t ∨ ∃ p ∈ spellings, c ∈ p.1 := by
  induction before, t using Lexeme.scan_induction with
  | nil before => exact .inl h
  | name before p rest hp ih =>
    rw [canonicalFrom_name hp,List.mem_append] at h
    rcases h with h | h
    · exact .inr ⟨_,name_mem_spellings (leading?_eq_some_iff.mp hp).2.1,h⟩
    · rcases ih h with h | h
      · exact .inl (List.mem_append_right _ h)
      · exact .inr h
  | char before d rest hd ih =>
    rw [canonicalFrom_char hd,List.mem_cons] at h
    rcases h with rfl | h
    · exact .inl (by simp)
    · rcases ih h with h | h
      · exact .inl (List.mem_cons_of_mem _ h)
      · exact .inr h

theorem canonicalFrom_eq_nil_iff {before : Option Char} {t : Text} :
    canonicalFrom before t = [] ↔ t = [] := by
  induction before, t using Lexeme.scan_induction with
  | nil before => simp
  | name before p rest hp ih =>
    have hmem := (leading?_eq_some_iff.mp hp).2.1
    have hname := spelling_ne_nil (name_mem_spellings hmem)
    simp [canonicalFrom_name hp,hname,spelling_ne_nil hmem]
  | char before c rest hc ih => simp [canonicalFrom_char hc]

theorem canonical_append {rest : Text} (hr : OpensApart rest) (t : Text) :
    canonical (t ++ rest) = canonical t ++ canonical rest := by
  simp only [canonical,Lexeme.scan_append hr,List.flatMap_append]

theorem canonical_cons {c : Char} (h : Apart c) (t : Text) :
    canonical (c :: t) = c :: canonical t := by
  simp [canonical,Lexeme.scan_cons h,Lexeme.text]

@[simp] theorem canonical_nil : canonical [] = [] := rfl

theorem canonical_spelling {p : Text × Element} (hp : p ∈ spellings) :
    canonical p.1 = p.2.name := by
  simp [canonical,Lexeme.scan_spelling hp,Lexeme.text]

end DrawFormula.Expression
