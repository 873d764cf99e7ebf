import DrawFormula.Proofs.Text.Compact
import Mathlib.Data.List.TakeWhile

/-! # Integers written in decimal

A written integer is a minus sign, if it is negative, and the digits of its size. So different
integers are written differently. An integer is read back if it can be written, and every integer
that is read can be written.
-/
namespace DrawFormula.Text

theorem ofNat_injective : Function.Injective ofNat := fun m n h => by
  rw [← digitsValue_ofNat m,h,digitsValue_ofNat]

theorem ofInt_eq (i : ℤ) : ofInt i = (if i < 0 then ['-'] else []) ++ ofNat i.natAbs := by
  cases i with
  | ofNat n =>
    rw [if_neg (by simp)]
    rfl
  | negSucc n =>
    rw [if_pos (Int.negSucc_lt_zero n)]
    rfl

theorem splitSign_eq_self {t : Text} (h : ∀ c ∈ t, c.isDigit) : splitSign t = (false,t) := by
  unfold splitSign
  split
  · exact absurd (h '-' List.mem_cons_self) (by decide)
  · exact absurd (h '+' List.mem_cons_self) (by decide)
  · rfl

theorem splitSign_ofInt (i : ℤ) : splitSign (ofInt i) = (decide (i < 0),ofNat i.natAbs) := by
  cases i with
  | ofNat n =>
    have hsign : ¬ Int.ofNat n < 0 := by simp
    rw [decide_eq_false hsign]
    exact splitSign_eq_self fun c => isDigit_of_mem_ofNat
  | negSucc n =>
    rw [decide_eq_true (Int.negSucc_lt_zero n)]
    rfl

theorem ofInt_injective : Function.Injective ofInt := fun i j h => by
  have hsplit := congrArg splitSign h
  rw [splitSign_ofInt,splitSign_ofInt,Prod.mk.injEq,decide_eq_decide] at hsplit
  have habs := ofNat_injective hsplit.2
  omega

theorem dropWhile_eq_self {p : Char → Bool} {t : Text} (h : ∀ c ∈ t, p c = false) :
    t.dropWhile p = t :=
  List.dropWhile_eq_self_iff.mpr fun hne => by simp [h _ (List.getElem_mem hne)]

theorem trimBy_eq_self {p : Char → Bool} {t : Text} (h : ∀ c ∈ t, p c = false) : trimBy p t = t := by
  rw [trimBy,dropWhile_eq_self h,dropWhile_eq_self fun c hc => h c (List.mem_reverse.mp hc),
    List.reverse_reverse]

theorem mem_ofInt {i : ℤ} {c : Char} (h : c ∈ ofInt i) : c = '-' ∨ c.isDigit := by
  rw [ofInt_eq,List.mem_append] at h
  rcases h with h | h
  · split at h
    · exact .inl (List.mem_singleton.mp h)
    · exact absurd h List.not_mem_nil
  · exact .inr (isDigit_of_mem_ofNat h)

theorem ofInt_ne_nil (i : ℤ) : ofInt i ≠ [] := by
  rw [ofInt_eq]
  exact List.append_ne_nil_of_right_ne_nil _ (ofNat_ne_nil _)

/-! ## Reading -/

theorem isWritable_iff {n : ℤ} : isWritable n = true ↔ n.natAbs < 10 ^ digitLimit := by
  rw [← length_ofNat_le_iff,isWritable,decide_eq_true_eq]

theorem wellGrouped_of_ne {t : Text} (hne : t ≠ []) (h : ∀ c ∈ t, c ≠ '_') :
    wellGrouped t = true := by
  induction t using wellGrouped.induct with
  | case1 => exact absurd rfl hne
  | case2 => exact absurd rfl (h '_' (by simp))
  | case3 tail htail => exact absurd rfl (h '_' (by simp))
  | case4 c hc => rw [wellGrouped.eq_4 c hc]
  | case5 c rest hc ih => exact absurd rfl (h '_' (by simp))
  | case6 c rest halone hc hrest hnext ih =>
    rw [wellGrouped.eq_6 c rest halone hc hrest hnext]
    exact ih hrest fun d hd => h d (List.mem_cons_of_mem c hd)

theorem isNumeralBlank_of_mem_ofInt {i : ℤ} {c : Char} (h : c ∈ ofInt i) :
    isNumeralBlank c = false := by
  have hblank : isBlank c = false := by
    rcases mem_ofInt h with rfl | hdigit
    · decide
    · have hb := toNat_of_isDigit hdigit
      exact (compact_of_toNat (by omega)).2
  rw [isNumeralBlank,hblank,Bool.false_and]

/-- A writable integer is read back. -/
theorem readInt_ofInt {i : ℤ} (h : isWritable i = true) : readInt (ofInt i) = .ok i := by
  have hdigit : ∀ c ∈ ofNat i.natAbs, c.isDigit := fun c => isDigit_of_mem_ofNat
  have hline : ∀ c ∈ ofNat i.natAbs, c ≠ '_' := by
    rintro c hc rfl
    exact absurd (hdigit _ hc) (by decide)
  have hrun : ∀ c ∈ ofNat i.natAbs, (isDigit c || c == '_') = true := fun c hc => by
    rw [isDigit_of_ascii (hdigit c hc),Bool.true_or]
  have htake := List.takeWhile_eq_self_iff.mpr hrun
  have hdrop := List.dropWhile_eq_nil_iff.mpr hrun
  have hdigits : (ofNat i.natAbs).filter (· ≠ '_') = ofNat i.natAbs :=
    List.filter_eq_self.mpr fun c hc => by simpa using hline c hc
  unfold readInt
  rw [trimBy_eq_self fun c => isNumeralBlank_of_mem_ofInt,splitSign_ofInt]
  simp only [htake,hdrop,hdigits,wellGrouped_of_ne (ofNat_ne_nil _) hline,
    readDigits_ofNat (isWritable_iff.mp h)]
  have habs : (if i < 0 then -(i.natAbs : ℤ) else i.natAbs) = i := by
    split <;> omega
  simpa using habs

theorem lt_of_readDigits {digits : Text} {n : ℕ} (h : readDigits digits = .ok n) :
    n < 10 ^ digitLimit := by
  unfold readDigits at h
  split at h
  · cases h
  · next hlong =>
    cases h
    exact (digitsValue_lt digits).trans_le (Nat.pow_le_pow_right (by omega) (not_lt.mp hlong))

/-- What is read has no more digits than can be written. -/
theorem isWritable_of_readInt {t : Text} {n : ℤ} (h : readInt t = .ok n) :
    isWritable n = true := by
  rw [isWritable_iff]
  simp only [readInt] at h
  split at h
  · cases h
  · split at h
    · cases h
    · next size hsize =>
      have hlt := lt_of_readDigits hsize
      split at h
      · obtain rfl := Except.ok.inj h
        split <;> simpa using hlt
      · cases h

end DrawFormula.Text
