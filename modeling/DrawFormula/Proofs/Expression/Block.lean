import DrawFormula.Expression.Condition
import Mathlib.Data.List.Basic
import Mathlib.Data.List.TakeWhile

/-! # Cutting a text into blocks

A proper block is read back from its written form whatever follows it, and every block that is read
is proper. A character that opens no block is plain text.
-/
namespace DrawFormula.Expression

namespace Block

/-- A field that is not empty and holds neither braces nor the character that ends it. -/
def IsField (stop : Char) (t : Text) : Prop := t ≠ [] ∧ ∀ c ∈ t, inField stop c = true

/-- A block that reads back as itself. -/
structure Proper (b : Block) : Prop where
  condition : IsField '?' b.condition
  yes : IsField ':' b.yes
  no : IsField '}' b.no

theorem inField_self (c : Char) : inField c c = false := by simp [inField]

theorem takeWhile_field {stop : Char} {f : Text} (hf : ∀ c ∈ f, inField stop c = true) {d : Char}
    (hd : inField stop d = false) (rest : Text) :
    (f ++ d :: rest).takeWhile (inField stop) = f := by
  rw [List.takeWhile_append_of_pos hf,List.takeWhile_cons_of_neg (by simp [hd]),List.append_nil]

theorem dropWhile_field {stop : Char} {f : Text} (hf : ∀ c ∈ f, inField stop c = true) {d : Char}
    (hd : inField stop d = false) (rest : Text) :
    (f ++ d :: rest).dropWhile (inField stop) = d :: rest := by
  rw [List.dropWhile_append_of_pos hf,List.dropWhile_cons_of_neg (by simp [hd])]

theorem field?_eq_some_iff {stop : Char} {t f rest : Text} :
    field? stop t = some (f,rest) ↔ IsField stop f ∧ t = f ++ stop :: rest := by
  constructor
  · intro h
    have hcat := List.takeWhile_append_dropWhile (p := inField stop) (l := t)
    have hall : ∀ c ∈ t.takeWhile (inField stop), inField stop c = true :=
      List.all_eq_true.mp List.all_takeWhile
    unfold field? at h
    split at h
    · next c cs d r htake hdrop =>
      rw [htake] at hall hcat
      rw [hdrop] at hcat
      split at h
      · next hd =>
        obtain ⟨rfl,rfl⟩ : c :: cs = f ∧ r = rest := by simpa using h
        exact ⟨⟨by simp,hall⟩,by rw [← hcat,hd]⟩
      · cases h
    · cases h
  · rintro ⟨⟨hne,hall⟩,rfl⟩
    cases f with
    | nil => exact absurd rfl hne
    | cons c f =>
      unfold field?
      rw [takeWhile_field hall (inField_self stop),dropWhile_field hall (inField_self stop)]
      simp

/-- A field that meets another brace first is no field. -/
theorem field?_eq_none {stop : Char} {f : Text} (hf : ∀ c ∈ f, inField stop c = true) {d : Char}
    (hd : inField stop d = false) (hstop : d ≠ stop) (rest : Text) :
    field? stop (f ++ d :: rest) = none := by
  unfold field?
  rw [takeWhile_field hf hd,dropWhile_field hf hd]
  cases f <;> simp [hstop]

/-- The block at the start of a text is the proper block that the text begins with. -/
theorem leading?_eq_some_iff {t : Text} {b : Block} :
    leading? t = some b ↔ b.Proper ∧ b.text <+: t := by
  constructor
  · intro h
    cases t with
    | nil => simp [leading?] at h
    | cons c t =>
      by_cases hc : c = '{'
      · subst hc
        simp only [leading?,Option.bind_eq_some_iff,Option.map_eq_some_iff,Prod.exists] at h
        obtain ⟨condition,r,hcond,yes,r',hyes,no,r'',hno,rfl⟩ := h
        obtain ⟨hc,rfl⟩ := field?_eq_some_iff.mp hcond
        obtain ⟨hy,rfl⟩ := field?_eq_some_iff.mp hyes
        obtain ⟨hn,rfl⟩ := field?_eq_some_iff.mp hno
        exact ⟨⟨hc,hy,hn⟩,r'',by simp [text]⟩
      · rw [leading?] at h
        · cases h
        · simpa using hc
  · rintro ⟨⟨hcond,hyes,hno⟩,rest,rfl⟩
    have hc := field?_eq_some_iff.mpr
      ⟨hcond,(rfl : b.condition ++ '?' :: (b.yes ++ ':' :: (b.no ++ '}' :: rest)) = _)⟩
    have hy := field?_eq_some_iff.mpr ⟨hyes,(rfl : b.yes ++ ':' :: (b.no ++ '}' :: rest) = _)⟩
    have hn := field?_eq_some_iff.mpr ⟨hno,(rfl : b.no ++ '}' :: rest = _)⟩
    simp [text,leading?,hc,hy,hn]

theorem leading?_text {b : Block} (h : b.Proper) (rest : Text) :
    leading? (b.text ++ rest) = some b :=
  leading?_eq_some_iff.mpr ⟨h,List.prefix_append b.text rest⟩

theorem leading?_of_ne {c : Char} (h : c ≠ '{') (rest : Text) : leading? (c :: rest) = none := by
  rw [leading?]
  simpa using h

theorem length_text (b : Block) : b.text.length = b.width := by
  simp only [text,width,List.length_cons,List.length_append,List.length_nil]
  omega

end Block

namespace Piece

/-- The written form of a piece. -/
def text : Piece → Text
  | plain t => t
  | block b => b.text

theorem ofTextFrom_skip (s rest : Text) : ofTextFrom s.length (s ++ rest) = ofText rest := by
  induction s with
  | nil => rfl
  | cons c s ih => rw [List.length_cons,List.cons_append,ofTextFrom,ih]

theorem ofText_block {b : Block} (h : b.Proper) (rest : Text) :
    ofText (b.text ++ rest) = block b :: ofText rest := by
  have hl := Block.leading?_text h rest
  have hskip := ofTextFrom_skip (b.condition ++ '?' :: (b.yes ++ ':' :: (b.no ++ ['}']))) rest
  have hlen : (b.condition ++ '?' :: (b.yes ++ ':' :: (b.no ++ ['}']))).length = b.width - 1 := by
    simp only [Block.width,List.length_cons,List.length_append,List.length_nil]
    omega
  rw [hlen] at hskip
  rw [Block.text,List.cons_append] at hl ⊢
  simp only [ofText,ofTextFrom,hl,hskip]

theorem ofText_cons {c : Char} {rest : Text} (h : Block.leading? (c :: rest) = none) :
    ofText (c :: rest) = consPlain c (ofText rest) := by
  rw [ofText,ofTextFrom,h]
  rfl

theorem ofText_cons_of_ne {c : Char} (h : c ≠ '{') (rest : Text) :
    ofText (c :: rest) = consPlain c (ofText rest) := ofText_cons (Block.leading?_of_ne h rest)

/-- Induction along the pieces of a text: a proper block, or a character that opens none. -/
theorem ofText_induction {motive : Text → Prop} (nil : motive [])
    (block : ∀ (b : Block) rest, b.Proper → motive rest → motive (b.text ++ rest))
    (char : ∀ c rest, Block.leading? (c :: rest) = none → motive rest → motive (c :: rest))
    (t : Text) : motive t := by
  induction hn : t.length using Nat.strong_induction_on generalizing t with
  | _ n ih =>
    cases t with
    | nil => exact nil
    | cons c t =>
      cases h : Block.leading? (c :: t) with
      | none => exact char c t h (ih t.length (by simp [← hn]) t rfl)
      | some b =>
        obtain ⟨hb,rest,hrest⟩ := Block.leading?_eq_some_iff.mp h
        have hlen : rest.length < n := by
          rw [← hn,← hrest,List.length_append,Block.length_text,Block.width]
          omega
        rw [← hrest]
        exact block b rest hb (ih rest.length hlen rest rfl)

/-! ## Texts put together from pieces -/

section Rewriting
variable {f : Piece → Text} (hf : ∀ t, f (plain t) = t)

include hf in
theorem flatMap_consPlain (c : Char) (ps : List Piece) :
    (consPlain c ps).flatMap f = c :: ps.flatMap f := by
  unfold consPlain
  split <;> simp [hf]

include hf in
theorem flatMap_ofText_cons {c : Char} {rest : Text} (h : Block.leading? (c :: rest) = none) :
    (ofText (c :: rest)).flatMap f = c :: (ofText rest).flatMap f := by
  rw [ofText_cons h,flatMap_consPlain hf]

include hf in
theorem flatMap_ofText_append {t : Text} (h : ∀ c ∈ t, c ≠ '{') (rest : Text) :
    (ofText (t ++ rest)).flatMap f = t ++ (ofText rest).flatMap f := by
  induction t with
  | nil => rfl
  | cons c t ih =>
    rw [List.cons_append,flatMap_ofText_cons hf (Block.leading?_of_ne (h c (by simp)) _),
      ih (fun d hd => h d (by simp [hd])),List.cons_append]

theorem flatMap_ofText_block {b : Block} (h : b.Proper) (rest : Text) :
    (ofText (b.text ++ rest)).flatMap f = f (block b) ++ (ofText rest).flatMap f := by
  rw [ofText_block h,List.flatMap_cons]

end Rewriting

theorem flatMap_text_consPlain (c : Char) (ps : List Piece) :
    (consPlain c ps).flatMap text = c :: ps.flatMap text := flatMap_consPlain (fun _ => rfl) c ps

theorem flatMap_text_ofText (t : Text) : (ofText t).flatMap text = t := by
  induction t using ofText_induction with
  | nil => rfl
  | block b rest hb ih => simp [ofText_block hb,text,ih]
  | char c rest h ih =>
    rw [ofText_cons h,flatMap_text_consPlain,ih]

end Piece

end DrawFormula.Expression
