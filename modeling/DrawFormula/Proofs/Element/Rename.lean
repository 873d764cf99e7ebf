import DrawFormula.Proofs.Element.Spelling
import DrawFormula.Proofs.Text.Decimal

/-! # What a canonical name can join with

Where a spelling gives way to the canonical name of its element, the name begins as the spelling did
unless it begins with a ping character, and it ends in no digit. A longer spelling that begins with a
canonical name is canonical itself, or the long word for the total.
-/
namespace DrawFormula.Element

/-- The long word for the total, the only spelling that a shorter canonical name can grow to. -/
def totalWord : Text := ['总','分','数']

theorem isDigitSign_of_ideograph {c : Char} (h : 0x4e00 ≤ c.toNat ∧ c.toNat ≤ 0x9fff) :
    Text.isDigitSign c = false := by
  have hdigit : Text.isDigit c = false := by
    by_contra hd
    obtain ⟨first,hmem,hle,hlt⟩ := Text.exists_digitZero (by simpa using hd)
    have table : ∀ first ∈ Text.digitZeros, first + 10 ≤ 0x4e00 ∨ 0x9fff < first := by decide
    have hrange := table first hmem
    omega
  rw [Text.isDigitSign,hdigit,Bool.false_or,List.any_eq_false]
  intro range hmem hin
  have table : ∀ range ∈ Text.digitSignRanges, range.2 < 0x4e00 ∨ 0x9fff < range.1 := by decide
  have hrange := table range hmem
  simp only [Bool.and_eq_true,decide_eq_true_eq] at hin
  omega

/-- Among the characters of spellings the place digits are the only digit signs. -/
theorem isDigitSign_of_mem_spelling {p : Text × Element} (hp : p ∈ spellings) {c : Char}
    (hc : c ∈ p.1) : Text.isDigitSign c = c.isDigit := by
  rcases mem_spelling hp hc with h | h
  · rw [isDigitSign_of_ideograph h]
    by_contra hd
    have hb := Text.toNat_of_isDigit (c := c) (by simpa using hd)
    omega
  · have hdigit : c.isDigit = true := by
      simp only [Char.isDigit,UInt32.le_iff_toNat_le,ge_iff_le,Bool.and_eq_true,decide_eq_true_eq]
      change 48 ≤ c.toNat ∧ c.toNat ≤ 57
      omega
    rw [hdigit,Text.isDigitSign,Text.isDigit_of_ascii hdigit,Bool.true_or]

/-- The characters that canonical names begin with. -/
def nameStarts : Text := ['期','总','平','特','星','干','支']

/-- A spelling that begins with a digit. -/
def DigitLed (t : Text) : Prop := t.head?.any Char.isDigit = true

instance (t : Text) : Decidable (DigitLed t) := inferInstanceAs (Decidable (_ = true))

/-- What tells a spelling from the name of its element, and what neither of the two holds. -/
theorem rename_table : ∀ p ∈ spellings,
    (p.2.name.head? ∈ nameStarts.map some ∧
      (p.2.name.head? ≠ some '平' → p.1.head? = p.2.name.head?)) ∧
    (p.1 ≠ ['星','期'] → p.1 ≠ ['干','支'] → ∀ c ∈ p.1.tail, c ∉ nameStarts) ∧
    ((p.2.name.getLast?).any Char.isDigit = false ∧
      ((p.1.getLast?).any Char.isDigit = true → p.2.name.getLast? = some '号')) ∧
    (p.1 = totalWord ∨ DigitLed p.1 →
      p.1.count '平' + p.2.name.count '数' < p.2.name.count '平' + p.1.count '数') ∧
    (p.2.name.length = 1 → p.1 = p.2.name) ∧
    ('总' ∉ p.1.tail ∧ '号' ∉ p.1.dropLast) ∧
    (totalWord.isPrefixOf p.1 → p.1 = totalWord) := by
  decide +kernel

section Table
variable {p : Text × Element} (hp : p ∈ spellings)
include hp

theorem name_head? : p.2.name.head? ∈ nameStarts.map some ∧
    (p.2.name.head? ≠ some '平' → p.1.head? = p.2.name.head?) := (rename_table p hp).1

/-- Only the weekday and the word for stem and branch hold the start of another name. -/
theorem not_mem_nameStarts (h : p.1 ≠ ['星','期']) (h' : p.1 ≠ ['干','支']) {c : Char}
    (hc : c ∈ p.1.tail) : c ∉ nameStarts := by
  obtain ⟨-,hstarts,-⟩ := rename_table p hp
  exact hstarts h h' c hc

theorem name_getLast? : (p.2.name.getLast?).any Char.isDigit = false ∧
    ((p.1.getLast?).any Char.isDigit = true → p.2.name.getLast? = some '号') := by
  obtain ⟨-,-,hlast,-⟩ := rename_table p hp
  exact hlast

/-- What a spelling that is not canonical gains in ping characters or in number characters lost. -/
theorem count_name (h : p.1 = totalWord ∨ DigitLed p.1) :
    p.1.count '平' + p.2.name.count '数' < p.2.name.count '平' + p.1.count '数' := by
  obtain ⟨-,-,-,hcount,-⟩ := rename_table p hp
  exact hcount h

theorem not_canonical (h : p.1 = totalWord ∨ DigitLed p.1) : p.1 ≠ p.2.name := by
  intro he
  have hcount := count_name hp h
  rw [← he] at hcount
  omega

theorem eq_name_of_length_one (h : p.2.name.length = 1) : p.1 = p.2.name := by
  obtain ⟨-,-,-,-,hone,-⟩ := rename_table p hp
  exact hone h

/-- No word for the total begins within a spelling, and a number character can only end it. -/
theorem not_mem_tail_dropLast : '总' ∉ p.1.tail ∧ '号' ∉ p.1.dropLast := by
  obtain ⟨-,-,-,-,-,hwithin,-⟩ := rename_table p hp
  exact hwithin

theorem eq_totalWord (h : totalWord <+: p.1) : p.1 = totalWord := by
  obtain ⟨-,-,-,-,-,-,htotal⟩ := rename_table p hp
  exact htotal (by simpa using h)

end Table

theorem canonical_or_totalWord {q : Text × Element} (hq : q ∈ spellings) {e : Element}
    (h : e.name <+: q.1) : q.1 = q.2.name ∨ q.1 = totalWord := by
  have table : ∀ q ∈ spellings, q.1 ≠ q.2.name → q.1 ≠ totalWord →
      ∀ p ∈ canonicalSpellings, p.1.isPrefixOf q.1 = false := by decide +kernel
  by_cases hc : q.1 = q.2.name
  · exact .inl hc
  · by_cases ht : q.1 = totalWord
    · exact .inr ht
    · have hno := table q hq hc ht _ (name_mem_canonicalSpellings e)
      rw [List.isPrefixOf_iff_prefix.mpr h] at hno
      cases hno

end DrawFormula.Element
