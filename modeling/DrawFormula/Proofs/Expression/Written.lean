import DrawFormula.Proofs.Expression.Pieces
import DrawFormula.Proofs.Expression.Tree
import DrawFormula.Proofs.Formula.Digitization

/-! # Characters of expressions

The written form of a tree consists of visible ASCII characters, ideographs and two more operators.
It has no numeral but in the names of phases, so that half-width forms, squeezing and the conversion
of numerals leave it as it is.
-/
namespace DrawFormula.Expression
open Element

namespace Tree

/-! ## Characters of trees -/

/-- The characters of expressions. -/
def Written (c : Char) : Prop := 0x21 ≤ c.toNat ∧ c.toNat ≤ 0x7e ∨ c.toNat = 0xd7 ∨
  c.toNat = 0xf7 ∨ 0x4e00 ≤ c.toNat ∧ c.toNat ≤ 0x9fff

instance (c : Char) : Decidable (Written c) := inferInstanceAs (Decidable (_ ∨ _))

theorem written_of_mem_spelling {p : Text × Element} (hp : p ∈ spellings) {c : Char}
    (h : c ∈ p.1) : Written c := by
  have hc := mem_spelling hp h
  unfold Written
  omega

theorem written_of_mem_name (q : Condition) {c : Char} (h : c ∈ q.name) : Written c := by
  rcases q with ⟨m,q⟩
  have table : ∀ c ∈ (Condition.mk m q).name, Written c := by cases m <;> cases q <;> decide
  exact table c h

/-- The marks between the terms of a tree. -/
def groupMarks : Text := ['(',')','{','?',':','}']

/-- A mark of a group or block, or an operator. -/
def IsMark (c : Char) : Prop := c ∈ groupMarks ∨ ∃ o : Operator, c = o.sign

theorem written_of_mark {c : Char} (h : IsMark c) : Written c := by
  rcases h with h | ⟨o,rfl⟩
  · have table : ∀ c ∈ groupMarks, Written c := by decide
    exact table c h
  · cases o <;> decide

/-- What holds of the terms and is kept by the marks between them holds of the written form. -/
theorem text_induction {motive : Text → Prop}
    (spelling : ∀ p ∈ spellings, motive p.1) (digits : ∀ t, (∀ c ∈ t, c.isDigit) → motive t)
    (name : ∀ q : Condition, motive q.name) (nil : motive [])
    (mark : ∀ c s t, IsMark c → motive s → motive t → motive (s ++ c :: t))
    (t : Tree Condition) : motive t.text := by
  have hmark : ∀ c ∈ groupMarks, IsMark c := fun c hc => .inl hc
  induction t with
  | element s => exact spelling _ s.mem_spellings
  | literal l => exact digits l.digits l.ascii
  | group a ih =>
    exact mark '(' [] _ (hmark _ (by decide)) nil (mark ')' a.text [] (hmark _ (by decide)) ih nil)
  | block q yes no ihy ihn =>
    have hno := mark '}' no.text [] (hmark _ (by decide)) ihn nil
    have hyes := mark ':' yes.text _ (hmark _ (by decide)) ihy hno
    exact mark '{' [] _ (hmark _ (by decide)) nil (mark '?' q.name _ (hmark _ (by decide)) (name q) hyes)
  | join a o b iha ihb => exact mark o.sign a.text b.text (.inr ⟨o,rfl⟩) iha ihb
  | lead o a ih => exact mark o.sign [] a.text (.inr ⟨o,rfl⟩) nil ih
  | trail a o ih => exact mark o.sign a.text [] (.inr ⟨o,rfl⟩) ih nil

theorem written_of_mem_text (t : Tree Condition) : ∀ c ∈ t.text, Written c := by
  refine text_induction (motive := fun t => ∀ c ∈ t, Written c)
    (fun p hp c hc => written_of_mem_spelling hp hc) ?_
    (fun q c hc => written_of_mem_name q hc) (by simp) ?_ t
  · intro t ht c hc
    have hb := Text.toNat_of_isDigit (ht c hc)
    unfold Written
    omega
  · intro c s t hc hs ht d hd
    rw [List.mem_append,List.mem_cons] at hd
    rcases hd with hd | rfl | hd
    · exact hs d hd
    · exact written_of_mark hc
    · exact ht d hd

/-! ## Trees are in digits already -/

theorem digitized_text (t : Tree Condition) : Formula.Digitized t.text := by
  have table : ∀ p ∈ spellings, Formula.Digitized p.1 := by decide +kernel
  have hmark : ∀ c, IsMark c → Formula.isNumeral c = false ∧ c ≠ '行' := by
    intro c hc
    rcases hc with hc | ⟨o,rfl⟩
    · have table : ∀ c ∈ groupMarks, Formula.isNumeral c = false ∧ c ≠ '行' := by decide
      exact table c hc
    · cases o <;> decide
  refine text_induction (motive := Formula.Digitized) table ?_ ?_ .nil ?_ t
  · exact fun t ht => Formula.digitized_of_forall fun c hc => Formula.isNumeral_of_isDigit (ht c hc)
  · rintro ⟨m,q⟩
    cases m <;> cases q <;> decide
  · intro c s t hc hs ht
    refine hs.append (.cons (fun hn => ?_) ht)
    rw [(hmark c hc).1] at hn
    cases hn

/-- No name and no condition holds the phase of the fifth ping number in a numeral. -/
theorem steady_text (t : Tree Condition) : Formula.Steady t.text := by
  apply Formula.steady_of_lt
  · intro c hc
    have hw := written_of_mem_text t c hc
    unfold Written at hw
    omega
  · have table : ∀ p ∈ spellings, ¬ Formula.pingFivePhase <:+: p.1 := by
      simp only [← Text.contains_iff]
      decide +kernel
    have hmark : ∀ c, IsMark c → c ∉ Formula.pingFivePhase := by
      intro c hc
      rcases hc with hc | ⟨o,rfl⟩
      · have table : ∀ c ∈ groupMarks, c ∉ Formula.pingFivePhase := by decide
        exact table c hc
      · cases o <;> decide
    refine text_induction (motive := fun t => ¬ Formula.pingFivePhase <:+: t) table ?_ ?_
      (by simp [Formula.pingFivePhase]) ?_ t
    · intro t ht hp
      have hdigit := ht '平' (hp.subset (by decide))
      exact absurd hdigit (by decide)
    · rintro ⟨m,q⟩ hp
      rw [← Text.contains_iff] at hp
      cases m <;> cases q <;> exact absurd hp (by decide)
    · intro c s t hc hs ht hp
      rcases (Text.infix_append_cons_iff (by decide) (hmark c hc)).mp hp with hp | hp
      · exact hs hp
      · exact ht hp

/-- Nothing but the names of a tree is changed. -/
theorem normalize_eq_respell (t : Tree Condition) : normalize t.text = respell t.text := by
  have hc : ∀ c ∈ t.text, Text.Compact c := fun c hc =>
    Text.compact_of_toNat (written_of_mem_text t c hc)
  rw [normalize_eq,Text.halfwidth_eq_self hc,Text.squeeze_eq_self hc,
    Formula.digitize_eq_self (digitized_text t) (steady_text t)]

end Tree

end DrawFormula.Expression
