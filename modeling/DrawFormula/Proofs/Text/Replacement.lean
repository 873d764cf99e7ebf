import DrawFormula.Text.Basic
import Mathlib.Data.List.Infix

/-! # Replacing a part of a text

Replacement goes from left to right: an occurrence of the part is replaced as a whole, and a
character at which no occurrence begins is kept.
-/
namespace DrawFormula.Text

theorem replaceFrom_skip (old new s t : Text) :
    replaceFrom old new s.length (s ++ t) = replaceAll old new t := by
  induction s with
  | nil => rfl
  | cons c s ih => rw [List.length_cons,List.cons_append,replaceFrom,ih]

theorem replaceAll_hit {old : Text} (h : old ≠ []) (new t : Text) :
    replaceAll old new (old ++ t) = new ++ replaceAll old new t := by
  obtain ⟨c,old,rfl⟩ := List.exists_cons_of_ne_nil h
  have hskip := replaceFrom_skip (c :: old) new old t
  rw [replaceAll,List.cons_append,replaceFrom,if_pos (by simp),List.length_cons,
    Nat.add_sub_cancel,hskip]

theorem replaceAll_miss {old : Text} {c : Char} {t : Text} (h : ¬ old <+: c :: t) (new : Text) :
    replaceAll old new (c :: t) = c :: replaceAll old new t := by
  rw [replaceAll,replaceFrom,if_neg (by simpa using h),replaceAll]

theorem replaceAll_cons_of_ne {x c : Char} (h : c ≠ x) (old new t : Text) :
    replaceAll (x :: old) new (c :: t) = c :: replaceAll (x :: old) new t :=
  replaceAll_miss (fun hp => h (List.cons_prefix_cons.mp hp).1.symm) new

/-- A text without the first character of the part is kept. -/
theorem replaceAll_append {x : Char} {s : Text} (h : ∀ c ∈ s, c ≠ x) (old new t : Text) :
    replaceAll (x :: old) new (s ++ t) = s ++ replaceAll (x :: old) new t := by
  induction s with
  | nil => rfl
  | cons c s ih =>
    rw [List.cons_append,replaceAll_cons_of_ne (h c (by simp)),
      ih (fun d hd => h d (by simp [hd])),List.cons_append]

/-- Induction along the replacements in a text. -/
theorem replaceAll_induction {old : Text} (hold : old ≠ []) {motive : Text → Prop} (nil : motive [])
    (hit : ∀ t, motive t → motive (old ++ t))
    (miss : ∀ c t, ¬ old <+: c :: t → motive t → motive (c :: t)) (t : Text) : motive t := by
  induction hn : t.length using Nat.strong_induction_on generalizing t with
  | _ n ih =>
    cases t with
    | nil => exact nil
    | cons c t =>
      by_cases h : old <+: c :: t
      · obtain ⟨rest,hrest⟩ := h
        have hpos := List.length_pos_iff.mpr hold
        have hlen : rest.length < n := by
          rw [← hn,← hrest,List.length_append]
          omega
        rw [← hrest]
        exact hit rest (ih rest.length hlen rest rfl)
      · exact miss c t h (ih t.length (by simp [← hn]) t rfl)

/-- A part that does not occur is not replaced. -/
theorem replaceAll_eq_self {old t : Text} (h : ¬ old <:+: t) (new : Text) :
    replaceAll old new t = t := by
  induction t with
  | nil => rfl
  | cons c t ih =>
    rw [replaceAll_miss (fun hp => h hp.isInfix),ih (fun hi => h (hi.trans (List.infix_cons_iff.mpr
      (.inr List.infix_rfl))))]

theorem contains_iff {part t : Text} : contains part t = true ↔ part <:+: t := by
  induction t with
  | nil => simp [contains]
  | cons c t ih => simp [contains,ih,List.infix_cons_iff]

theorem prefix_append_cons_iff {old s t : Text} {b : Char} (hb : b ∉ old) :
    old <+: s ++ b :: t ↔ old <+: s := by
  refine ⟨fun h => ?_,fun h => h.trans (List.prefix_append s _)⟩
  rcases List.prefix_or_prefix_of_prefix h (List.prefix_append s (b :: t)) with hs | ⟨more,hmore⟩
  · exact hs
  · rw [← hmore,List.prefix_append_right_inj] at h
    cases more with
    | nil => simp [← hmore]
    | cons d more =>
      obtain ⟨u,hu⟩ := h
      simp only [List.cons_append,List.cons.injEq] at hu
      simp [← hmore,hu.1] at hb

theorem not_prefix_cons {old t : Text} (hold : old ≠ []) {b : Char} (hb : b ∉ old) :
    ¬ old <+: b :: t := by
  intro h
  have hnil := (prefix_append_cons_iff (s := []) hb).mp h
  exact hold (List.prefix_nil.mp hnil)

/-- A part of two texts begins in the first or is a part of the second. -/
theorem infix_append_cases {old s t : Text} (h : old <:+: s ++ t) :
    old <:+: t ∨ ∃ s₁ s₂, s = s₁ ++ s₂ ∧ s₂ ≠ [] ∧ old <+: s₂ ++ t := by
  induction s with
  | nil => exact .inl h
  | cons c s ih =>
    rcases List.infix_cons_iff.mp h with h | h
    · exact .inr ⟨[],c :: s,rfl,by simp,h⟩
    · rcases ih h with h | ⟨s₁,s₂,rfl,hne,h⟩
      · exact .inl h
      · exact .inr ⟨c :: s₁,s₂,rfl,hne,h⟩

/-- A part occurs on one side of a character that it does not hold. -/
theorem infix_append_cons_iff {old : Text} (hold : old ≠ []) {b : Char} (hb : b ∉ old)
    {s t : Text} : old <:+: s ++ b :: t ↔ old <:+: s ∨ old <:+: t := by
  induction s with
  | nil => simp [List.infix_cons_iff,not_prefix_cons hold hb,hold]
  | cons c s ih =>
    rw [List.cons_append,List.infix_cons_iff,List.infix_cons_iff,ih,← List.cons_append,
      prefix_append_cons_iff hb,or_assoc]

end DrawFormula.Text
