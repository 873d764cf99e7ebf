import DrawFormula.Proofs.Formula.Digitization

/-! # What conversion leaves alone

The outline of a text has a gap in the place of each stretch of number characters and is the text
everywhere else. Conversion keeps the outline: it writes numbers where numbers stood and touches
nothing else. So the neighbours of a word put aside stay its neighbours, and no ping character comes
to stand before the five phases that was not there before.
-/
namespace DrawFormula.Formula
open Text

/-! ## Outlines -/

/-- Characters of numbers: of numerals, and ASCII digits. -/
def inNumber (c : Char) : Bool := isNumeral c || c.isDigit

/-- An outline with a gap before it, unless it begins with one. -/
def openGap (o : List (Option Char)) : List (Option Char) :=
  if o.head? = some none then o else none :: o

/-- The text with a gap for each stretch of number characters. -/
def outline : Text → List (Option Char)
  | [] => []
  | c :: t => if inNumber c then openGap (outline t) else some c :: outline t

theorem inNumber_of_isDigit {c : Char} (h : c.isDigit) : inNumber c = true := by
  rw [inNumber,h,Bool.or_true]

theorem inNumber_of_unitValue? {c : Char} {n : ℕ} (h : unitValue? c = some n) :
    inNumber c = true := by
  simp [inNumber,isNumeral,h]

theorem inNumber_ten : inNumber '十' = true := by decide

theorem inNumber_of_mem_ofNat {n : ℕ} {c : Char} (h : c ∈ ofNat n) : inNumber c = true :=
  inNumber_of_isDigit (isDigit_of_mem_ofNat h)

theorem openGap_openGap (o : List (Option Char)) : openGap (openGap o) = openGap o := by
  by_cases h : o.head? = some none
  · have hself : openGap o = o := if_pos h
    rw [hself,hself]
  · exact if_pos (by rw [openGap,if_neg h]; rfl)

theorem outline_cons_number {c : Char} (h : inNumber c = true) (t : Text) :
    outline (c :: t) = openGap (outline t) := by rw [outline,if_pos h]

theorem outline_cons_other {c : Char} (h : inNumber c = false) (t : Text) :
    outline (c :: t) = some c :: outline t := by rw [outline,h]; rfl

theorem outline_cons_congr (c : Char) {s t : Text} (h : outline s = outline t) :
    outline (c :: s) = outline (c :: t) := by rw [outline,outline,h]

/-- A number is a gap, however long it is. -/
theorem outline_number_append {a : Text} (hne : a ≠ []) (h : ∀ c ∈ a, inNumber c = true)
    (t : Text) : outline (a ++ t) = openGap (outline t) := by
  induction a with
  | nil => exact absurd rfl hne
  | cons c a ih =>
    rw [List.cons_append,outline_cons_number (h c (by simp))]
    by_cases ha : a = []
    · rw [ha,List.nil_append]
    · rw [ih ha (fun d hd => h d (by simp [hd])),openGap_openGap]

theorem outline_ofNat_append (n : ℕ) (t : Text) : outline (ofNat n ++ t) = openGap (outline t) :=
  outline_number_append (ofNat_ne_nil n) (fun _ => inNumber_of_mem_ofNat) t

/-! ## The numerals in digits -/

theorem outline_digitizeTens (t : Text) : outline (digitizeTens t) = outline t := by
  fun_induction digitizeTens t with
  | case1 => rfl
  | case2 c => rfl
  | case3 a tens ha =>
    have htens := outline_ofNat_append (10 * tens) []
    rw [List.append_nil] at htens
    rw [htens,outline_cons_number (inNumber_of_unitValue? ha),outline_cons_number inNumber_ten,
      openGap_openGap]
  | case4 a tens ha c rest units hc ih =>
    rw [outline_ofNat_append,ih,outline_cons_number (inNumber_of_unitValue? ha),
      outline_cons_number inNumber_ten,outline_cons_number (inNumber_of_unitValue? hc),
      openGap_openGap,openGap_openGap]
  | case5 a tens ha c rest hc ih =>
    rw [outline_ofNat_append,ih,outline_cons_number (inNumber_of_unitValue? ha),
      outline_cons_number inNumber_ten,openGap_openGap]
  | case6 a b rest tens ha hb ih => exact outline_cons_congr a ih
  | case7 a b rest ha ih => exact outline_cons_congr a ih

theorem outline_digitizeTeens (t : Text) : outline (digitizeTeens t) = outline t := by
  fun_induction digitizeTeens t with
  | case1 => rfl
  | case2 c => rfl
  | case3 b rest units hb ih =>
    rw [outline_cons_number (inNumber_of_isDigit (by decide)),outline_ofNat_append,ih,
      outline_cons_number inNumber_ten,outline_cons_number (inNumber_of_unitValue? hb)]
  | case4 a b rest units hb ha ih => exact outline_cons_congr a ih
  | case5 a b rest hb ih => exact outline_cons_congr a ih

theorem digitizeChar_cases (c : Char) : digitizeChar c = [c] ∨
    inNumber c = true ∧ digitizeChar c ≠ [] ∧ ∀ d ∈ digitizeChar c, inNumber d = true := by
  unfold digitizeChar
  split
  · next h => exact .inr ⟨h ▸ inNumber_ten,by decide,by decide⟩
  · split
    · next h =>
      subst h
      exact .inr ⟨by decide,by decide,by decide⟩
    · split
      · next n h =>
        exact .inr ⟨inNumber_of_unitValue? h,ofNat_ne_nil n,fun _ => inNumber_of_mem_ofNat⟩
      · exact .inl rfl

theorem outline_flatMap_digitizeChar (t : Text) : outline (t.flatMap digitizeChar) = outline t := by
  induction t with
  | nil => rfl
  | cons c t ih =>
    rw [List.flatMap_cons]
    rcases digitizeChar_cases c with h | ⟨hc,hne,hall⟩
    · rw [h]
      exact outline_cons_congr c ih
    · rw [outline_number_append hne hall,ih,outline_cons_number hc]

theorem outline_inDigits (t : Text) : outline (inDigits t) = outline t := by
  rw [inDigits,outline_flatMap_digitizeChar,outline_digitizeTeens,outline_digitizeTens]

theorem outline_digitizePingFive (t : Text) : outline (digitizePingFive t) = outline t := by
  induction t using digitizePingFive_induction with
  | nil => rfl
  | word t ih =>
    have hdigit : inNumber '5' = true := by decide
    have hnumeral : inNumber '五' = true := by decide
    rw [digitizePingFive]
    refine outline_cons_congr '平' ?_
    rw [outline_cons_number hdigit,outline_cons_number hnumeral,outline_cons_congr '行' ih]
  | char c t hno ih =>
    rw [digitizePingFive_cons hno]
    exact outline_cons_congr c ih

/-! ## Parts without numbers -/

section Parts
variable {s t : Text} (hs : ∀ c ∈ s, inNumber c = false)
include hs

theorem prefix_outline_iff : s.map some <+: outline t ↔ s <+: t := by
  induction s generalizing t with
  | nil => simp
  | cons d s ih =>
    rw [List.forall_mem_cons] at hs
    cases t with
    | nil => simp [outline]
    | cons c t =>
      cases hc : inNumber c with
      | false =>
        rw [outline_cons_other hc,List.map_cons,List.cons_prefix_cons,List.cons_prefix_cons,
          ih hs.2,Option.some.injEq]
      | true =>
        have hgap : (outline (c :: t)).head? = some none := by
          rw [outline_cons_number hc,openGap]
          split
          · assumption
          · rfl
        have hne : d ≠ c := by
          rintro rfl
          exact absurd hs.1 (by simp [hc])
        obtain ⟨rest,hrest⟩ := List.head?_eq_some_iff.mp hgap
        rw [hrest,List.map_cons,List.cons_prefix_cons,List.cons_prefix_cons]
        simp [hne]

theorem infix_outline_iff : s.map some <:+: outline t ↔ s <:+: t := by
  induction t with
  | nil => simp [outline]
  | cons c t ih =>
    rw [List.infix_cons_iff (a := c),← ih,← prefix_outline_iff hs]
    cases hc : inNumber c with
    | false =>
      rw [outline_cons_other hc,List.infix_cons_iff]
    | true =>
      rw [outline_cons_number hc,openGap]
      split
      · exact ⟨.inr,fun h => h.elim List.IsPrefix.isInfix id⟩
      · exact List.infix_cons_iff

end Parts

/-! ## Texts in the place of characters -/

/-- What an outline becomes if a text is written for each character that is left in it. -/
def filled (f : Char → Text) : List (Option Char) → List (Option Char)
  | [] => []
  | none :: o => openGap (filled f o)
  | some c :: o => (f c).foldr (fun d o => if inNumber d then openGap o else some d :: o) (filled f o)

theorem foldr_outline (a t : Text) :
    a.foldr (fun d o => if inNumber d then openGap o else some d :: o) (outline t) =
      outline (a ++ t) := by
  induction a with
  | nil => rfl
  | cons c a ih => rw [List.foldr_cons,ih,List.cons_append,outline]

theorem filled_openGap (f : Char → Text) (o : List (Option Char)) :
    filled f (openGap o) = openGap (filled f o) := by
  unfold openGap
  split
  · next h =>
    obtain ⟨rest,rfl⟩ := List.head?_eq_some_iff.mp h
    exact (openGap_openGap (filled f rest)).symm
  · rfl

/-- The outline decides about the outline of a text in which only numbers are written for number
characters. -/
theorem outline_flatMap {f : Char → Text}
    (h : ∀ c, inNumber c = true → f c ≠ [] ∧ ∀ d ∈ f c, inNumber d = true) (t : Text) :
    outline (t.flatMap f) = filled f (outline t) := by
  induction t with
  | nil => rfl
  | cons c t ih =>
    rw [List.flatMap_cons]
    cases hc : inNumber c with
    | true =>
      obtain ⟨hne,hall⟩ := h c hc
      rw [outline_number_append hne hall,ih,outline_cons_number hc,filled_openGap]
    | false => rw [outline_cons_other hc,filled,← ih,foldr_outline]

end DrawFormula.Formula
