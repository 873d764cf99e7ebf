import DrawFormula.Proofs.Csv.Columns

/-! # Columns of words

A field with a character beyond ASCII is neither a number nor a truth value and does not stand for
a missing value. So its column is one of texts, unless it begins like a negative number.
-/
namespace DrawFormula.Csv
variable {fields : List Text} {t : Text}

/-- Whether a text has a character beyond ASCII. -/
def Beyond (t : Text) : Prop := ∃ c ∈ t, 128 ≤ c.toNat

namespace Beyond

theorem dropWhile (h : Beyond t) {p : Char → Bool} (hp : ∀ c : Char, 128 ≤ c.toNat → p c = false) :
    Beyond (t.dropWhile p) := by
  obtain ⟨c,hc,hbeyond⟩ := h
  refine ⟨c,?_,hbeyond⟩
  rw [← List.takeWhile_append_dropWhile (p := p) (l := t),List.mem_append] at hc
  refine hc.resolve_left fun htake => ?_
  exact Bool.false_ne_true ((hp c hbeyond).symm.trans (List.mem_takeWhile_imp htake))

theorem reverse (h : Beyond t) : Beyond t.reverse := by
  obtain ⟨c,hc,hbeyond⟩ := h
  exact ⟨c,List.mem_reverse.mpr hc,hbeyond⟩

theorem trimmed (h : Beyond t) : Beyond (Text.trimBy isPadding t) := by
  have hpadding (c : Char) (hc : 128 ≤ c.toNat) : isPadding c = false := by
    have hspace : c ≠ ' ' := by
      rintro rfl
      exact absurd hc (by decide)
    simp only [isPadding,hspace,decide_false,Bool.false_or,Bool.and_eq_false_iff,
      decide_eq_false_iff_not]
    omega
  exact ((h.dropWhile hpadding).reverse.dropWhile hpadding).reverse

theorem unsigned (h : Beyond t) : Beyond (Text.splitSign t).2 := by
  obtain ⟨c,hc,hbeyond⟩ := h
  have hsign : c ≠ '-' ∧ c ≠ '+' := by
    constructor <;> rintro rfl <;> exact absurd hbeyond (by decide)
  refine ⟨c,?_,hbeyond⟩
  unfold Text.splitSign
  split
  · exact (List.mem_cons.mp hc).resolve_left hsign.1
  · exact (List.mem_cons.mp hc).resolve_left hsign.2
  · exact hc

theorem all_eq_false (h : Beyond t) {p : Char → Bool}
    (hp : ∀ c : Char, 128 ≤ c.toNat → p c = false) : t.all p = false := by
  obtain ⟨c,hc,hbeyond⟩ := h
  exact List.all_eq_false.mpr ⟨c,hc,by simp [hp c hbeyond]⟩

theorem lower_ne (h : Beyond t) {word : String} (hword : word.toList.all fun c => c.toNat < 128) :
    String.ofList (Text.lower t) ≠ word := by
  rintro rfl
  obtain ⟨c,hc,hbeyond⟩ := h
  have hlower : c.toLower = c := by
    refine dif_neg fun hupper => ?_
    have hval : c.toNat ≤ 90 := UInt32.le_iff_toNat_le.mp hupper.2
    omega
  rw [String.toList_ofList,List.all_eq_true] at hword
  have hsmall := hword c (List.mem_map.mpr ⟨c,hc,hlower⟩)
  rw [decide_eq_true_eq] at hsmall
  omega

theorem integer?_eq_none (h : Beyond t) : integer? t = none := by
  have hdigits : (Text.splitSign (Text.trimBy isPadding t)).2.all
      (fun c => '0' ≤ c && c ≤ '9') = false :=
    h.trimmed.unsigned.all_eq_false fun c hc => by
      rw [Bool.and_eq_false_iff]
      refine .inr (decide_eq_false fun hle => ?_)
      have hval : c.toNat ≤ 57 := UInt32.le_iff_toNat_le.mp hle
      omega
  rw [integer?]
  simp only [hdigits,Bool.and_false,Bool.false_eq_true,if_false]

theorem number?_eq_none (h : Beyond t) : number? t = none := by
  have hascii : (Text.splitSign (Text.trimBy isPadding t)).2.all (fun c => c.toNat < 128) = false :=
    h.trimmed.unsigned.all_eq_false fun c hc => decide_eq_false (by omega)
  have hword : (["inf","infinity"].contains
      (String.ofList (Text.lower (Text.splitSign t).2))) = false := by
    have hinf : String.ofList (Text.lower (Text.splitSign t).2) ≠ "inf" :=
      h.unsigned.lower_ne (by decide)
    have hinfinity : String.ofList (Text.lower (Text.splitSign t).2) ≠ "infinity" :=
      h.unsigned.lower_ne (by decide)
    simp [hinf,hinfinity]
  rw [number?]
  simp only [hascii,Bool.false_eq_true,if_false,infinity?,hword]

theorem bool?_eq_none (h : Beyond t) : bool? t = none := by
  rw [bool?]
  exact (if_neg (h.lower_ne (by decide))).trans (if_neg (h.lower_ne (by decide)))

theorem longInteger?_eq_none (h : Beyond t) : longInteger? t = none := by
  refine if_neg (Bool.eq_false_iff.mp (h.trimmed.all_eq_false fun c hc => ?_))
  have hdigit : c.isDigit = false := by
    rw [← Bool.not_eq_true]
    intro hdigit
    have hbounds := Text.toNat_of_isDigit hdigit
    omega
  have hmarks : c ≠ '_' ∧ c ≠ '+' ∧ c ≠ '-' := by
    refine ⟨?_,?_,?_⟩ <;> rintro rfl <;> exact absurd hc (by decide)
  simp [hdigit,hmarks]

theorem isMissing_eq_false (h : Beyond t) : isMissing t = false := by
  have hwords : ∀ word ∈ missingWords, word.all (fun c => c.toNat < 128) = true := by decide
  rw [isMissing,← Bool.not_eq_true,List.contains_iff_mem]
  intro hmem
  have hall := hwords t hmem
  rw [h.all_eq_false fun c hc => decide_eq_false (by omega)] at hall
  exact Bool.false_ne_true hall

end Beyond

/-- Whether a text has a character beyond ASCII and does not begin like a negative number. -/
def Worded (t : Text) : Prop := Beyond t ∧ isNegative t = false

instance (t : Text) : Decidable (Worded t) :=
  inferInstanceAs (Decidable ((∃ c ∈ t, 128 ≤ c.toNat) ∧ isNegative t = false))

theorem integerFit_of_worded (h : Worded t) (ht : t ∈ fields) :
    integerFit fields = .none ∨ integerFit fields = .beyond := by
  have hpresent : t ∈ fields.filter fun field => !isMissing field :=
    List.mem_filter.mpr ⟨ht,by simp [h.1.isMissing_eq_false]⟩
  have hpositive : t ∈ (fields.filter fun field => !isMissing field).filter
      fun field => !isNegative field := List.mem_filter.mpr ⟨hpresent,by simp [h.2]⟩
  have hnone (p : ℤ → Bool) : (!(integer? t).any p) = true := by
    simp [h.1.integer?_eq_none]
  unfold integerFit
  dsimp only
  split
  · split
    · exact .inl rfl
    · unfold unsignedFit
      dsimp only
      split
      · split
        · exact .inl rfl
        · exact .inr rfl
      · next hfind => exact absurd (hnone _) (List.find?_eq_none.mp hfind t hpositive)
  · next hfind => exact absurd (hnone _) (List.find?_eq_none.mp hfind t hpresent)

theorem looseCells_of_beyond (h : Beyond t) (ht : t ∈ fields) :
    looseCells fields = cellsBy .text fields := by
  have hpresent : t ∈ fields.filter fun field => !isMissing field :=
    List.mem_filter.mpr ⟨ht,by simp [h.isMissing_eq_false]⟩
  have hnumbers : (fields.filter fun field => !isMissing field).all
      (fun field => (number? field).isSome) = false :=
    List.all_eq_false.mpr ⟨t,hpresent,by simp [h.number?_eq_none]⟩
  have hbools : (fields.filter fun field => !isMissing field).all
      (fun field => (bool? field).isSome) = false :=
    List.all_eq_false.mpr ⟨t,hpresent,by simp [h.bool?_eq_none]⟩
  simp only [looseCells,hnumbers,hbools,Bool.false_eq_true,if_false]

/-- A column with a word has texts and missing fields only. -/
theorem cells_of_worded (h : Worded t) (ht : t ∈ fields) : cells fields = cellsBy .text fields := by
  unfold cells
  rcases integerFit_of_worded h ht with hfit | hfit
  · rw [hfit]
    exact looseCells_of_beyond h.1 ht
  · have hlong : (fields.all fun field => isMissing field || (longInteger? field).isSome) = false :=
      List.all_eq_false.mpr ⟨t,ht,by simp [h.1.isMissing_eq_false,h.1.longInteger?_eq_none]⟩
    rw [hfit,hlong]
    exact looseCells_of_beyond h.1 ht

end DrawFormula.Csv
