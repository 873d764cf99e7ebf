import DrawFormula.Formula.Numerals
import DrawFormula.Proofs.Text.Decimal

/-! # Numerals in digits

Writing numerals in digits touches numeral characters only and leaves none behind. What a text
weighs, each character by itself and digits nothing, never grows on the way.
-/
namespace DrawFormula.Formula
open Text

/-- Characters of numerals. -/
def isNumeral (c : Char) : Bool := c = '十' || c = '零' || (unitValue? c).isSome

theorem unitValue?_of_not_isNumeral {c : Char} (h : isNumeral c = false) :
    unitValue? c = none ∧ c ≠ '十' ∧ c ≠ '零' := by
  simpa [isNumeral,and_comm,and_assoc,and_left_comm] using h

theorem unitValue?_eq_some {c : Char} {n : ℕ} (h : unitValue? c = some n) :
    c ∈ ['一','二','两','三','四','五','六','七','八','九'] := by
  unfold unitValue? at h
  split at h <;> simp_all

theorem mem_of_isNumeral {c : Char} (h : isNumeral c = true) :
    c ∈ ['十','零','一','二','两','三','四','五','六','七','八','九'] := by
  simp only [isNumeral,Bool.or_eq_true,decide_eq_true_eq,Option.isSome_iff_exists] at h
  rcases h with (rfl | rfl) | ⟨n,hn⟩
  · decide
  · decide
  · exact List.mem_cons_of_mem _ (List.mem_cons_of_mem _ (unitValue?_eq_some hn))

/-- Numeral characters lie between the digits and the private-use characters. -/
theorem isNumeral_bounds {c : Char} (h : isNumeral c = true) : 0x4e00 ≤ c.toNat ∧ c.toNat < 0xe000 := by
  have table : ∀ c ∈ ['十','零','一','二','两','三','四','五','六','七','八','九'],
      0x4e00 ≤ c.toNat ∧ c.toNat < 0xe000 := by decide
  exact table c (mem_of_isNumeral h)

theorem isNumeral_of_isDigit {c : Char} (h : c.isDigit) : isNumeral c = false := by
  have hc := toNat_of_isDigit h
  by_contra hn
  have hb := isNumeral_bounds (by simpa using hn)
  omega

/-- The numerals in digits, no word being put aside. -/
def inDigits (t : Text) : Text := (digitizeTeens (digitizeTens t)).flatMap digitizeChar

/-! ## Text without numerals -/

theorem digitizeTens_eq_self {t : Text} (h : ∀ c ∈ t, isNumeral c = false) :
    digitizeTens t = t := by
  induction t with
  | nil => rfl
  | cons a t ih =>
    have ih := ih (fun c hc => h c (by simp [hc]))
    have ha := (unitValue?_of_not_isNumeral (h a (by simp))).1
    cases t with
    | nil => rfl
    | cons b t => rw [digitizeTens,ha,ih]

theorem digitizeTeens_eq_self {t : Text} (h : ∀ c ∈ t, isNumeral c = false) :
    digitizeTeens t = t := by
  induction t with
  | nil => rfl
  | cons a t ih =>
    have ih := ih (fun c hc => h c (by simp [hc]))
    cases t with
    | nil => rfl
    | cons b t =>
      have hb := (unitValue?_of_not_isNumeral (h b (by simp))).1
      rw [digitizeTeens,hb,ih]

theorem digitizeChar_eq_self {c : Char} (h : isNumeral c = false) : digitizeChar c = [c] := by
  obtain ⟨hunit,hten,hzero⟩ := unitValue?_of_not_isNumeral h
  rw [digitizeChar,if_neg hten,if_neg hzero,hunit]

theorem inDigits_eq_self {t : Text} (h : ∀ c ∈ t, isNumeral c = false) : inDigits t = t := by
  rw [inDigits,digitizeTens_eq_self h,digitizeTeens_eq_self h]
  induction t with
  | nil => rfl
  | cons c t ih =>
    rw [List.flatMap_cons,digitizeChar_eq_self (h c (by simp)),ih (fun d hd => h d (by simp [hd]))]
    rfl

/-! ## What a text weighs -/

/-- What a text weighs if every character weighs what `w` says. -/
def weight (w : Char → ℕ) (t : Text) : ℕ := (t.map w).sum

@[simp] theorem weight_nil (w : Char → ℕ) : weight w [] = 0 := rfl

@[simp] theorem weight_cons (w : Char → ℕ) (c : Char) (t : Text) :
    weight w (c :: t) = w c + weight w t := by simp [weight]

@[simp] theorem weight_append (w : Char → ℕ) (s t : Text) :
    weight w (s ++ t) = weight w s + weight w t := by simp [weight]

theorem weight_eq_zero_iff {w : Char → ℕ} {t : Text} : weight w t = 0 ↔ ∀ c ∈ t, w c = 0 := by
  induction t with
  | nil => simp
  | cons c t ih => simp [ih]

theorem weight_flatMap (w : Char → ℕ) (f : Char → Text) (t : Text) :
    weight w (t.flatMap f) = weight (fun c => weight w (f c)) t := by
  induction t with
  | nil => rfl
  | cons c t ih => rw [List.flatMap_cons,weight_append,weight_cons,ih]

theorem weight_mono {v w : Char → ℕ} {t : Text} (h : ∀ c ∈ t, v c ≤ w c) :
    weight v t ≤ weight w t := by
  induction t with
  | nil => exact Nat.le_refl _
  | cons c t ih =>
    have hc := h c (by simp)
    have ht := ih (fun d hd => h d (by simp [hd]))
    simp only [weight_cons]
    omega

section Weightless
variable {w : Char → ℕ} (hw : ∀ c : Char, c.isDigit → w c = 0)
include hw

theorem weight_ofNat (n : ℕ) : weight w (ofNat n) = 0 :=
  weight_eq_zero_iff.mpr fun c hc => hw c (isDigit_of_mem_ofNat hc)

theorem weight_digitizeTens_le (t : Text) : weight w (digitizeTens t) ≤ weight w t := by
  fun_induction digitizeTens t with
  | case1 => exact Nat.le_refl _
  | case2 c => exact Nat.le_refl _
  | case3 a tens ha =>
    simp [weight_ofNat hw]
  | case4 a tens ha c rest units hc ih =>
    simp only [weight_append,weight_ofNat hw,weight_cons]
    omega
  | case5 a tens ha c rest hc ih =>
    simp only [weight_append,weight_ofNat hw,weight_cons] at ih ⊢
    omega
  | case6 a b rest tens ha hb ih =>
    simp only [weight_cons] at ih ⊢
    omega
  | case7 a b rest ha ih =>
    simp only [weight_cons] at ih ⊢
    omega

theorem weight_digitizeTeens_le (t : Text) : weight w (digitizeTeens t) ≤ weight w t := by
  fun_induction digitizeTeens t with
  | case1 => exact Nat.le_refl _
  | case2 c => exact Nat.le_refl _
  | case3 b rest units hb ih =>
    simp only [weight_append,weight_ofNat hw,weight_cons,hw '1' (by decide)]
    omega
  | case4 a b rest units hb ha ih =>
    simp only [weight_cons] at ih ⊢
    omega
  | case5 a b rest hb ih =>
    simp only [weight_cons] at ih ⊢
    omega

theorem weight_digitizeChar_le (c : Char) : weight w (digitizeChar c) ≤ w c := by
  unfold digitizeChar
  split
  · simp [hw]
  · split
    · simp [hw]
    · split
      · simp [weight_ofNat hw]
      · simp

theorem weight_inDigits_le (t : Text) : weight w (inDigits t) ≤ weight w t := by
  calc weight w (inDigits t)
      = weight (fun c => weight w (digitizeChar c)) (digitizeTeens (digitizeTens t)) :=
        weight_flatMap w digitizeChar _
    _ ≤ weight w (digitizeTeens (digitizeTens t)) :=
        weight_mono fun c _ => weight_digitizeChar_le hw c
    _ ≤ weight w (digitizeTens t) := weight_digitizeTeens_le hw _
    _ ≤ weight w t := weight_digitizeTens_le hw t

end Weightless

/-! ## Characters of the result -/

theorem isNumeral_of_mem_inDigits {t : Text} {c : Char} (h : c ∈ inDigits t) :
    isNumeral c = false := by
  obtain ⟨d,-,hc⟩ := List.mem_flatMap.mp h
  unfold digitizeChar at hc
  split at hc
  · simp only [List.mem_cons,List.not_mem_nil,or_false] at hc
    rcases hc with rfl | rfl <;> decide
  · split at hc
    · simp only [List.mem_singleton] at hc
      subst hc
      decide
    · split at hc
      · exact isNumeral_of_isDigit (isDigit_of_mem_ofNat hc)
      · simp only [List.mem_singleton] at hc
        subst hc
        simp_all [isNumeral]

/-- A character of the result is a digit or was there before. -/
theorem mem_of_mem_inDigits {t : Text} {c : Char} (h : c ∈ inDigits t) : c ∈ t ∨ c.isDigit := by
  by_contra hn
  rw [not_or] at hn
  obtain ⟨ht,hd⟩ := hn
  let w : Char → ℕ := fun d => if d = c then 1 else 0
  have hw : ∀ d : Char, d.isDigit → w d = 0 := by
    intro d hdd
    exact if_neg (fun he : d = c => hd (he ▸ hdd))
  have hzero : weight w t = 0 :=
    weight_eq_zero_iff.mpr fun d hdt => if_neg fun he : d = c => ht (he ▸ hdt)
  have hone := weight_eq_zero_iff.mp (Nat.le_zero.mp (hzero ▸ weight_inDigits_le hw t)) c h
  simp [w] at hone

end DrawFormula.Formula
