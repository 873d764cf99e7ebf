import DrawFormula.Proofs.Text.Decimal
import DrawFormula.Text.Halfwidth

/-! # Compact text

Half-width forms and the loss of blanks leave a text of half-width characters without blanks as it
is, and half-width forms are taken once and for all.
-/
namespace DrawFormula.Text

/-- Characters that are no blanks and have no other half-width form. -/
def Compact (c : Char) : Prop := halfwidthChar c = c ∧ isBlank c = false

/-- The visible ASCII characters, two operators and the ideographs are compact. -/
theorem compact_of_toNat {c : Char} (h : 0x21 ≤ c.toNat ∧ c.toNat ≤ 0x7e ∨ c.toNat = 0xd7 ∨
    c.toNat = 0xf7 ∨ 0x4e00 ≤ c.toNat ∧ c.toNat ≤ 0x9fff) : Compact c := by
  have hcodes : '【'.toNat = 0x3010 ∧ '】'.toNat = 0x3011 ∧ '\u3000'.toNat = 0x3000 := by decide
  constructor
  · simp only [halfwidthChar,← Char.toNat_inj]
    rw [if_neg (by omega),if_neg (by omega),if_neg (by omega),if_neg (by omega)]
  · simp only [isBlank,Bool.or_eq_false_iff,Bool.and_eq_false_iff,decide_eq_false_iff_not,
      beq_eq_false_iff_ne]
    omega

theorem halfwidth_eq_self {t : Text} (h : ∀ c ∈ t, Compact c) : halfwidth t = t := by
  induction t with
  | nil => rfl
  | cons c t ih =>
    rw [halfwidth,List.map_cons,(h c (by simp)).1]
    exact congrArg (c :: ·) (ih fun d hd => h d (by simp [hd]))

theorem squeeze_eq_self {t : Text} (h : ∀ c ∈ t, Compact c) : squeeze t = t := by
  apply List.filter_eq_self.mpr
  intro c hc
  simp [(h c hc).2]

theorem stripLeft_eq_self {t : Text} (h : ∀ c ∈ t.head?, isBlank c = false) : stripLeft t = t := by
  cases t with
  | nil => rfl
  | cons c t =>
    have hc := h c rfl
    exact List.dropWhile_cons_of_neg (by simp [hc])

theorem stripRight_eq_self {t : Text} (h : ∀ c ∈ t.getLast?, isBlank c = false) :
    stripRight t = t := by
  have hrev := stripLeft_eq_self (t := t.reverse) (by simpa using h)
  rw [stripLeft] at hrev
  rw [stripRight,hrev,List.reverse_reverse]

theorem toNat_ofNat {n : ℕ} (h : n.isValidChar) : (Char.ofNat n).toNat = n := by
  rw [Char.ofNat,dif_pos h]
  rfl

theorem halfwidthChar_halfwidthChar (c : Char) :
    halfwidthChar (halfwidthChar c) = halfwidthChar c := by
  unfold halfwidthChar
  split
  · rfl
  · split
    · rfl
    · split
      · rfl
      · split
        · next h =>
          have hn := toNat_ofNat (n := c.toNat - 0xfee0) (.inl (by omega))
          exact (compact_of_toNat (.inl (by rw [hn]; omega))).1
        · rfl

/-- Squeezed text in half-width forms is compact. -/
theorem compact_of_mem_squeeze {t : Text} {c : Char} (h : c ∈ squeeze t)
    (ht : ∀ d ∈ t, halfwidthChar d = d) : Compact c := by
  rw [squeeze,List.mem_filter] at h
  exact ⟨ht c h.1,by simpa using h.2⟩

/-! ## Digits and blanks -/

theorem isBlank_of_isDigit {c : Char} (h : isDigit c = true) : isBlank c = false := by
  obtain ⟨first,hmem,hle,hlt⟩ := exists_digitZero h
  have table : ∀ first ∈ digitZeros, 0x20 < first ∧ first + 10 ≤ 0x85 ∨ 0xa0 < first ∧
      first + 10 ≤ 0x1680 ∨ 0x1680 < first ∧ first + 10 ≤ 0x2000 ∨ 0x3000 < first := by decide
  have hrange := table first hmem
  simp only [isBlank,Bool.or_eq_false_iff,Bool.and_eq_false_iff,decide_eq_false_iff_not,
    beq_eq_false_iff_ne]
  omega

theorem not_isDigit_of_isBlank {c : Char} (h : isBlank c = true) : isDigit c = false := by
  by_contra hd
  rw [isBlank_of_isDigit (by simpa using hd)] at h
  cases h

/-- Half-width forms of digits are digits. -/
theorem isDigit_halfwidthChar {c : Char} (h : isDigit c = true) :
    isDigit (halfwidthChar c) = true := by
  obtain ⟨first,hmem,hle,hlt⟩ := exists_digitZero h
  have table : ∀ first ∈ digitZeros,
      first + 10 ≤ 0xff01 ∨ first = 0xff10 ∨ 0xff5e < first := by decide
  have hrange := table first hmem
  unfold halfwidthChar
  split
  · next hc =>
    subst hc
    exact absurd h (by decide)
  · split
    · next hc =>
      subst hc
      exact absurd h (by decide)
    · split
      · next hc =>
        subst hc
        exact absurd h (by decide)
      · split
        · have hn := toNat_ofNat (n := c.toNat - 0xfee0) (.inl (by omega))
          apply isDigit_of_ascii
          simp only [Char.isDigit,UInt32.le_iff_toNat_le,ge_iff_le,Bool.and_eq_true,
            decide_eq_true_eq]
          change 48 ≤ (Char.ofNat (c.toNat - 0xfee0)).toNat ∧
            (Char.ofNat (c.toNat - 0xfee0)).toNat ≤ 57
          omega
        · exact h

/-- Half-width forms of blanks are blanks. -/
theorem isBlank_halfwidthChar {c : Char} (h : isBlank c = true) :
    isBlank (halfwidthChar c) = true := by
  unfold halfwidthChar
  split
  · next hc =>
    subst hc
    exact absurd h (by decide)
  · split
    · next hc =>
      subst hc
      exact absurd h (by decide)
    · split
      · decide
      · split
        · next hrange =>
          simp only [isBlank,Bool.or_eq_true,Bool.and_eq_true,decide_eq_true_eq,beq_iff_eq] at h
          omega
        · exact h

theorem isBlank_of_isLineBreak {c : Char} (h : isLineBreak c = true) : isBlank c = true := by
  simp only [isLineBreak,Bool.or_eq_true,Bool.and_eq_true,decide_eq_true_eq,beq_iff_eq] at h
  simp only [isBlank,Bool.or_eq_true,Bool.and_eq_true,decide_eq_true_eq,beq_iff_eq]
  omega

end DrawFormula.Text
