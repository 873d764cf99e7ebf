import DrawFormula.Proofs.Expression.Resolution
import Mathlib.Logic.Function.Iterate

/-! # Rounds of resolving

On any text, well formed or not, a round leaves a text without blocks as it is and shortens every
other. What is put in the place of a block can complete another one around it, so one round need not
be enough; but after as many rounds as there are characters no block is left, whatever the special
number.
-/
namespace DrawFormula.Expression

/-- Whether some part of a text is a conditional block. -/
def HoldsBlock (t : Text) : Prop := ∃ b : Block, b.Proper ∧ b.text <:+: t

namespace Block

theorem text_ne_nil (b : Block) : b.text ≠ [] := List.cons_ne_nil _ _

theorem length_outcome_lt (b : Block) (special : ℤ) :
    (if conditionHolds b.condition special then b.yes else b.no).length < b.text.length := by
  rw [length_text,width]
  split <;> omega

end Block

theorem not_holdsBlock_nil : ¬ HoldsBlock [] := by
  rintro ⟨b,-,hb⟩
  exact b.text_ne_nil (List.infix_nil.mp hb)

theorem holdsBlock_append {b : Block} (hb : b.Proper) (rest : Text) :
    HoldsBlock (b.text ++ rest) := ⟨b,hb,(List.prefix_append b.text rest).isInfix⟩

/-- A block begins at the first character or lies in the rest. -/
theorem holdsBlock_cons {c : Char} {rest : Text} (h : Block.leading? (c :: rest) = none) :
    HoldsBlock (c :: rest) ↔ HoldsBlock rest := by
  refine exists_congr fun b => and_congr_right fun hb => ?_
  rw [List.infix_cons_iff]
  refine or_iff_right fun hhead => ?_
  rw [Block.leading?_eq_some_iff.mpr ⟨hb,hhead⟩] at h
  cases h

/-! ## One round -/

section Round
variable (special : ℤ) {t : Text}

theorem resolveOnce_eq_self (h : ¬ HoldsBlock t) : resolveOnce special t = t := by
  induction t using Piece.ofText_induction with
  | nil => rfl
  | block b rest hb ih => exact absurd (holdsBlock_append hb rest) h
  | char c rest hc ih =>
    rw [holdsBlock_cons hc] at h
    rw [resolveOnce_cons special hc,ih h]

theorem length_resolveOnce_le (t : Text) : (resolveOnce special t).length ≤ t.length := by
  induction t using Piece.ofText_induction with
  | nil => exact le_rfl
  | block b rest hb ih =>
    have hshorter := b.length_outcome_lt special
    rw [resolveOnce_block special hb,List.length_append,List.length_append]
    omega
  | char c rest hc ih =>
    rw [resolveOnce_cons special hc]
    exact Nat.succ_le_succ ih

theorem length_resolveOnce_lt (h : HoldsBlock t) : (resolveOnce special t).length < t.length := by
  induction t using Piece.ofText_induction with
  | nil => exact absurd h not_holdsBlock_nil
  | block b rest hb ih =>
    have hshorter := b.length_outcome_lt special
    have hrest := length_resolveOnce_le special rest
    rw [resolveOnce_block special hb,List.length_append,List.length_append]
    omega
  | char c rest hc ih =>
    rw [holdsBlock_cons hc] at h
    rw [resolveOnce_cons special hc]
    exact Nat.succ_lt_succ (ih h)

/-- A round changes nothing just if there is no block, so the outcome of the comparison with the
text before does not depend on the special number. -/
theorem resolveOnce_eq_self_iff : resolveOnce special t = t ↔ ¬ HoldsBlock t :=
  ⟨fun heq h => (length_resolveOnce_lt special h).ne (congrArg List.length heq),
    resolveOnce_eq_self special⟩

/-! ## All rounds -/

/-- Whether the rounds from `t` on end in `u`: after so many rounds the next one changes nothing for
the first time. -/
def EndsAfter (rounds : ℕ) (t u : Text) : Prop :=
  u = (resolveOnce special)^[rounds] t ∧
    ∀ n, (resolveOnce special)^[n + 1] t = (resolveOnce special)^[n] t ↔ rounds ≤ n

theorem endsAfter_zero (h : resolveOnce special t = t) : EndsAfter special 0 t t := by
  refine ⟨rfl,fun n => iff_of_true ?_ n.zero_le⟩
  rw [Function.iterate_succ_apply,h]

theorem EndsAfter.succ {rounds : ℕ} {u : Text} (hne : resolveOnce special t ≠ t)
    (h : EndsAfter special rounds (resolveOnce special t) u) :
    EndsAfter special (rounds + 1) t u := by
  refine ⟨h.1,fun n => ?_⟩
  cases n with
  | zero => exact iff_of_false hne (by omega)
  | succ n => exact (h.2 n).trans Nat.succ_le_succ_iff.symm

/-- With enough fuel the rounds end, and nothing is left to resolve. -/
theorem resolveUpTo_endsAfter {fuel : ℕ} (h : t.length ≤ fuel) :
    ∃ rounds, EndsAfter special rounds t (resolveUpTo special fuel t) := by
  induction fuel generalizing t with
  | zero =>
    obtain rfl := List.eq_nil_of_length_eq_zero (Nat.le_zero.mp h)
    exact ⟨0,endsAfter_zero special rfl⟩
  | succ fuel ih =>
    simp only [resolveUpTo]
    split
    · next heq => exact ⟨0,endsAfter_zero special heq⟩
    · next hne =>
      -- a round that changes something leaves a shorter text
      have hblock : HoldsBlock t := by
        by_contra hnone
        exact hne (resolveOnce_eq_self special hnone)
      have hshorter := length_resolveOnce_lt special hblock
      obtain ⟨rounds,hends⟩ := ih (by omega : (resolveOnce special t).length ≤ fuel)
      exact ⟨rounds + 1,hends.succ special hne⟩

theorem EndsAfter.not_holdsBlock {rounds : ℕ} {u : Text} (h : EndsAfter special rounds t u) :
    ¬ HoldsBlock u := by
  rw [← resolveOnce_eq_self_iff special,h.1,← Function.iterate_succ_apply' (resolveOnce special)]
  exact (h.2 rounds).mpr le_rfl

theorem length_resolveUpTo_le (fuel : ℕ) (t : Text) :
    (resolveUpTo special fuel t).length ≤ t.length := by
  induction fuel generalizing t with
  | zero => exact le_rfl
  | succ fuel ih =>
    simp only [resolveUpTo]
    split
    · exact le_rfl
    · exact (ih _).trans (length_resolveOnce_le special t)

theorem resolve_eq_self (h : ¬ HoldsBlock t) : resolve special t = t := by
  rw [resolve]
  cases t.length with
  | zero => rfl
  | succ fuel => rw [resolveUpTo,if_pos (resolveOnce_eq_self special h)]

theorem length_resolve_lt (h : HoldsBlock t) : (resolve special t).length < t.length := by
  have hround := length_resolveOnce_lt special h
  cases hfuel : t.length with
  | zero => omega
  | succ fuel =>
    have hchanged : resolveOnce special t ≠ t := fun heq => hround.ne (congrArg List.length heq)
    rw [resolve,hfuel,resolveUpTo,if_neg hchanged,← hfuel]
    exact (length_resolveUpTo_le special fuel _).trans_lt hround

end Round

/-- Whatever the text, the rounds end, and what they leave holds no block: resolving it again
changes nothing, with any special number. It is no longer than the text, and as long only if the
text held no block to begin with. -/
theorem resolve_blockless (t : Text) (special : ℤ) :
    (∃ rounds, EndsAfter special rounds t (resolve special t)) ∧
    ¬ HoldsBlock (resolve special t) ∧
    (∀ other, resolve other (resolve special t) = resolve special t) ∧
    (resolve special t).length ≤ t.length ∧
    ((resolve special t).length = t.length ↔ ¬ HoldsBlock t) := by
  obtain ⟨rounds,hends⟩ := resolveUpTo_endsAfter special (le_refl t.length)
  have hnone : ¬ HoldsBlock (resolve special t) := hends.not_holdsBlock
  refine ⟨⟨rounds,hends⟩,hnone,fun other => resolve_eq_self other hnone,?_,?_⟩
  · exact length_resolveUpTo_le special t.length t
  · constructor
    · intro hlength hblock
      exact (length_resolve_lt special hblock).ne hlength
    · intro h
      rw [resolve_eq_self special h]

example : resolveOnce 30 "\x7b特码\x7bx?y:大\x7d?1:2\x7d".toList = "\x7b特码大?1:2\x7d".toList ∧
    resolve 30 "\x7b特码\x7bx?y:大\x7d?1:2\x7d".toList = "1".toList := by decide +kernel

end DrawFormula.Expression
