import DrawFormula.Text.Numeral
import Mathlib.Algebra.GroupWithZero.Nat
import Mathlib.Data.List.Basic
import Mathlib.Tactic.Ring

/-! # Decimal text

Numerals that are written in ASCII digits are read back as the numbers they were written for, as
long as they stay within the limit of readable digits.
-/
namespace DrawFormula.Text

theorem toNat_of_isDigit {c : Char} (h : c.isDigit) : 48 ≤ c.toNat ∧ c.toNat ≤ 57 := by
  simpa [Char.isDigit,UInt32.le_iff_toNat_le] using h

theorem digitValue?_of_ascii {c : Char} (h : c.isDigit) : digitValue? c = some (c.toNat - 48) := by
  have hc := toNat_of_isDigit h
  have hlow : c.toNat < 0x80 := by omega
  simp only [digitValue?,if_pos hlow]
  exact if_pos hc

theorem isDigit_of_ascii {c : Char} (h : c.isDigit) : isDigit c = true := by
  simp [isDigit,digitValue?_of_ascii h]

/-- A decimal digit belongs to one of the blocks of ten. -/
theorem exists_digitZero {c : Char} (h : isDigit c = true) :
    ∃ first ∈ digitZeros, first ≤ c.toNat ∧ c.toNat < first + 10 := by
  unfold isDigit digitValue? at h
  split at h
  · split at h
    · next hascii => exact ⟨0x30,by decide,by omega,by omega⟩
    · cases h
  · rw [Option.isSome_map,List.find?_isSome] at h
    simpa using h

theorem ofNat_ne_nil (n : ℕ) : ofNat n ≠ [] := Nat.toDigits_ne_nil

theorem isDigit_of_mem_ofNat {n : ℕ} {c : Char} (h : c ∈ ofNat n) : c.isDigit :=
  Nat.isDigit_of_mem_toDigits (by decide) (by decide) h

/-- On ASCII digits the value of a run is the library's value of digit characters. -/
theorem digitsValue_of_ascii {digits : Text} (h : ∀ c ∈ digits, c.isDigit) :
    digitsValue digits = Nat.ofDigitChars 10 digits 0 := by
  rw [digitsValue,Nat.ofDigitChars_eq_foldl]
  apply List.foldl_ext
  intro acc c hc
  simp [digitValue?_of_ascii (h c hc)]

theorem digitsValue_ofNat (n : ℕ) : digitsValue (ofNat n) = n := by
  rw [digitsValue_of_ascii (fun _ => isDigit_of_mem_ofNat)]
  exact Nat.ofDigitChars_ten_toDigits

theorem length_ofNat_le_iff (n : ℕ) : (ofNat n).length ≤ digitLimit ↔ n < 10 ^ digitLimit :=
  Nat.length_toDigits_le_iff (by decide) (by decide)

theorem digitValue_le (c : Char) : (digitValue? c).getD 0 ≤ 9 := by
  unfold digitValue?
  split
  · split
    · simp only [Option.getD_some]
      omega
    · simp
  · cases hf : digitZeros.find? fun first => first ≤ c.toNat && c.toNat < first + 10 with
    | none => simp
    | some first =>
      have hp := List.find?_some hf
      simp only [Bool.and_eq_true,decide_eq_true_eq] at hp
      simp only [Option.map_some,Option.getD_some]
      omega

theorem digitsValue_lt (ds : Text) : digitsValue ds < 10 ^ ds.length := by
  have hfold : ∀ (ds : Text) (acc : ℕ),
      ds.foldl (fun acc c => 10 * acc + (digitValue? c).getD 0) acc < (acc + 1) * 10 ^ ds.length := by
    intro ds
    induction ds with
    | nil => simp
    | cons c ds ih =>
      intro acc
      have hc := digitValue_le c
      have hrest := ih (10 * acc + (digitValue? c).getD 0)
      have hle : (10 * acc + (digitValue? c).getD 0 + 1) * 10 ^ ds.length ≤
          10 * (acc + 1) * 10 ^ ds.length := Nat.mul_le_mul_right _ (by omega)
      rw [List.foldl_cons,List.length_cons,Nat.pow_succ]
      calc _ < _ := hrest
        _ ≤ 10 * (acc + 1) * 10 ^ ds.length := hle
        _ = (acc + 1) * (10 ^ ds.length * 10) := by ring
  simpa [digitsValue] using hfold ds 0

/-- Only the numeral of zero begins with a zero. -/
theorem eq_nil_of_ofNat_eq {n : ℕ} {digits : Text} (h : ofNat n = '0' :: digits) : digits = [] := by
  by_contra hne
  have hpos : 0 < digits.length := List.length_pos_iff.mpr hne
  have hvalue : digitsValue digits = n := by
    rw [← digitsValue_ofNat n,h]
    rfl
  have hlength : (ofNat n).length ≤ digits.length :=
    (Nat.length_toDigits_le_iff (by decide) hpos).mpr (hvalue ▸ digitsValue_lt digits)
  rw [h,List.length_cons] at hlength
  omega

theorem readDigits_of_length_le {digits : Text} (h : digits.length ≤ digitLimit) :
    readDigits digits = .ok (digitsValue digits) := if_neg (by omega)

theorem readDigits_ofNat {n : ℕ} (h : n < 10 ^ digitLimit) : readDigits (ofNat n) = .ok n := by
  rw [readDigits_of_length_le ((length_ofNat_le_iff n).mpr h),digitsValue_ofNat]

theorem ofInt_of_nonneg {v : Int} (h : 0 ≤ v) : ofInt v = ofNat v.toNat := by
  obtain ⟨n,rfl⟩ := Int.eq_ofNat_of_zero_le h
  rfl

end DrawFormula.Text
