import DrawFormula.Proofs.Expression.Substitution
import DrawFormula.Proofs.Expression.Summation

/-! # The value of an expression

The evaluation of a written tree adds up its terms: a name counts its element's value, a literal its
number, a group its sum and a block the sum of the branch that its condition chooses. Hence neither
the operators nor the order of the terms have an influence on the value.
-/
namespace DrawFormula.Expression

namespace Tree
variable (d : Draw) (sorted : Bool)

/-! ## Values of trees -/

/-- The sum of the terms. -/
def value : Tree Condition → ℤ
  | element s => s.element.value d sorted
  | literal l => Text.digitsValue l.digits
  | group a => a.value
  | block c yes no => if c.holds d.special then yes.value else no.value
  | join a _ b => a.value + b.value
  | lead _ a => a.value
  | trail a _ => a.value

/-- Trees that differ in their operators and in the order of the terms of a sum. -/
inductive Rearranged {κ : Type} : Tree κ → Tree κ → Prop
  | refl (a) : Rearranged a a
  | symm {a b} : Rearranged a b → Rearranged b a
  | trans {a b c} : Rearranged a b → Rearranged b c → Rearranged a c
  | group {a a'} : Rearranged a a' → Rearranged (group a) (group a')
  | block (k) {yes yes' no no'} : Rearranged yes yes' → Rearranged no no' →
      Rearranged (block k yes no) (block k yes' no')
  | join (o) {a a' b b'} : Rearranged a a' → Rearranged b b' →
      Rearranged (join a o b) (join a' o b')
  | swap (a o b o') : Rearranged (join a o b) (join b o' a)
  | assoc (a o b o' c) : Rearranged (join (join a o b) o' c) (join a o (join b o' c))
  | lead (o a) : Rearranged (lead o a) a
  | trail (a o) : Rearranged (trail a o) a

theorem Rearranged.inRange_iff {κ : Type} {t u : Tree κ} (h : Rearranged t u) :
    t.InRange ↔ u.InRange := by
  induction h with
  | refl a => rfl
  | symm _ ih => exact ih.symm
  | trans _ _ ih ih' => exact ih.trans ih'
  | group _ ih => exact ih
  | block k _ _ ih ih' => exact and_congr ih ih'
  | join o _ _ ih ih' => exact and_congr ih ih'
  | swap a o b o' => exact and_comm
  | assoc a o b o' c => exact and_assoc
  | lead o a => rfl
  | trail a o => rfl

theorem Rearranged.value_eq {t u : Tree Condition} (h : Rearranged t u) :
    t.value d sorted = u.value d sorted := by
  induction h with
  | refl a => rfl
  | symm _ ih => exact ih.symm
  | trans _ _ ih ih' => exact ih.trans ih'
  | group _ ih => exact ih
  | block k _ _ ih ih' => rw [value,value,ih,ih']
  | join o _ _ ih ih' => rw [value,value,ih,ih']
  | swap a o b o' => exact Int.add_comm _ _
  | assoc a o b o' c => exact Int.add_assoc _ _ _
  | lead o a => rfl
  | trail a o => rfl

/-! ## The chosen branches -/

theorem conditionHolds_name (c : Condition) (special : ℤ) :
    conditionHolds c.name special = c.holds special := by
  have hname : Condition.ofText? c.name = some c := by
    rcases c with ⟨m,q⟩
    cases m <;> cases q <;> decide
  rw [conditionHolds,hname]

theorem inRange_chosen {κ : Type} [Label κ] (special : ℤ) {t : Tree κ} (h : t.InRange) :
    (t.chosen special).InRange := by
  induction t with
  | element s => exact h
  | literal l => exact h
  | group a ih => exact ih h
  | block k yes no ihy ihn =>
    rw [chosen]
    split
    · exact ihy h.1
    · exact ihn h.2
  | join a o b iha ihb => exact ⟨iha h.1,ihb h.2⟩
  | lead o a ih => exact ih h
  | trail a o ih => exact ih h

theorem within_padded {t : Tree Empty} (h : t.InRange) : (t.padded d sorted).core.Within := by
  induction t with
  | element s =>
    have hv := Element.value_bounds d sorted h
    apply (Text.length_ofNat_le_iff _).mpr
    calc (s.element.value d sorted).toNat < 10 ^ 3 := by omega
      _ ≤ 10 ^ Text.digitLimit := Nat.pow_le_pow_right (by decide) (by decide)
  | literal l => exact h
  | group a ih => exact ih h
  | block k => exact k.elim
  | join a o b iha ihb => exact ⟨iha h.1,ihb h.2⟩
  | lead o a ih => exact ih h
  | trail a o ih => exact ih h

/-- The padded sum of the chosen branches has the value of the whole tree. -/
theorem value_padded_chosen {t : Tree Condition} (h : t.InRange) :
    (((t.chosen d.special).padded d sorted).core.value : ℤ) = t.value d sorted := by
  induction t with
  | element s =>
    have hv := (Element.value_bounds d sorted h).1
    simp only [chosen,padded,Core.value,Literal.ofNat,Text.digitsValue_ofNat,value]
    omega
  | literal l => rfl
  | group a ih => exact ih h
  | block c yes no ihy ihn =>
    simp only [chosen,value,Label.text,conditionHolds_name]
    split
    · exact ihy h.1
    · exact ihn h.2
  | join a o b iha ihb =>
    simp only [chosen,padded,Core.value,value,← iha h.1,← ihb h.2]
    omega
  | lead o a ih => exact ih h
  | trail a o ih => exact ih h

/-! ## Evaluation -/

theorem substitute_text {t : Tree Condition} (h : t.InRange) {cache : Element.Cache}
    (hc : cache.enabled = false) : substitute t.text d sorted cache =
      (.ok ((t.chosen d.special).padded d sorted).core.bare.text,cache) := by
  have hu := inRange_chosen d.special h
  simp only [substitute,resolve_text,scan_text,substituteAll_of_disabled hc,unknownIn_lexemes,
    flatMap_contribution d sorted hu,Padded.text,collapsePlus_text]

theorem evaluate_eq_value {t : Tree Condition} (h : t.InRange) {cache : Element.Cache}
    (hc : cache.enabled = false) :
    evaluate t.text d sorted cache = (.ok (t.value d sorted),cache) := by
  have hu := within_padded d sorted (inRange_chosen d.special h)
  simp only [evaluate,substitute_text d sorted h hc,sumOrZero,Core.sumOf_bare hu,
    value_padded_chosen d sorted h]

end Tree

/-- A draw with the special number 30. -/
def largeEvenDraw : Draw where
  period := 2024001
  numbers := [41,12,33,24,5,16,30]
  zodiacYear := 7
  weekday := none
  stemBranch := none
  length_numbers := rfl
  nodup_numbers := by decide
  numbers_inRange := by decide
  year_inRange := by decide

/-- A block within a block, a group and a literal. -/
def nestedTree : Tree Condition :=
  .join (.block ⟨.number,.large⟩
      (.block ⟨.tail,.odd⟩ (.literal ⟨['7'],by decide,by decide⟩)
        (.element ⟨['总'],.total .whole,by decide +kernel⟩))
      (.element ⟨['期'],.period .whole,by decide +kernel⟩)) .minus
    (.group (.join (.element ⟨['特','码'],.special .number,by decide +kernel⟩) .times
      (.literal ⟨['1','2'],by decide,by decide⟩)))

end DrawFormula.Expression
