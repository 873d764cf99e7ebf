import DrawFormula.Search.State
import Mathlib.Data.Int.Notation
import Mathlib.Data.Nat.Notation
import Mathlib.Tactic.SplitIfs

/-! # The order of floating-point numbers

Numbers that can be compared are in the order of their ranks: by sign, then by exponent and
mantissa, with infinities at the ends. So their order is transitive, and a hit rate that is near a
target stays so where the tolerance is widened.
-/
namespace DrawFormula.Decimal
open Float.Model

/-- The rank of a number: where it lies among the signs, its exponent and its mantissa. -/
def rank : UnpackedFloat → Option (ℤ × ℤ × ℤ)
  | .infinity .negative => some (-2,0,0)
  | .finite .negative m e _ => some (-1,-e,-m)
  | .zero _ => some (0,0,0)
  | .finite .positive m e _ => some (1,e,m)
  | .infinity .positive => some (2,0,0)
  | .notANumber => none

/-- Whether a rank does not come after another. -/
def RankLE (x y : ℤ × ℤ × ℤ) : Prop :=
  x.1 < y.1 ∨ x.1 = y.1 ∧ (x.2.1 < y.2.1 ∨ x.2.1 = y.2.1 ∧ x.2.2 ≤ y.2.2)

theorem RankLE.trans {x y z : ℤ × ℤ × ℤ} (h : RankLE x y) (h' : RankLE y z) : RankLE x z := by
  simp only [RankLE] at *
  omega

theorem isLE_then_iff (e e' : ℤ) (m m' : ℕ) :
    ((compare e e').then (compare m m')).isLE = true ↔ e < e' ∨ e = e' ∧ m ≤ m' := by
  rw [Ordering.isLE_then_iff_or,Int.compare_eq_lt,Int.compare_eq_eq,Nat.isLE_compare]

theorem isLE_swap_then_iff (e e' : ℤ) (m m' : ℕ) :
    ((compare e e').then (compare m m')).swap.isLE = true ↔ e' < e ∨ e' = e ∧ m' ≤ m := by
  rw [Ordering.swap_then,Int.compare_swap,Nat.compare_swap,isLE_then_iff]

theorem le_iff_rankLE (a b : UnpackedFloat) :
    a.le b = true ↔ ∃ x ∈ rank a, ∃ y ∈ rank b, RankLE x y := by
  rcases a with (_ | _) | _ | _ | ⟨_ | _,m,e,hm⟩ <;>
    rcases b with (_ | _) | _ | _ | ⟨_ | _,m',e',hm'⟩ <;>
    dsimp only [UnpackedFloat.le,UnpackedFloat.compare,rank] <;>
    simp [RankLE,isLE_then_iff,isLE_swap_then_iff,-Ordering.isLE_swap]
  all_goals first | decide | omega

theorem le_trans {a b c : Float} (h : a ≤ b) (h' : b ≤ c) : a ≤ c := by
  have hab : a.toModel.unpack.le b.toModel.unpack = true := of_decide_eq_true h
  have hbc : b.toModel.unpack.le c.toModel.unpack = true := of_decide_eq_true h'
  obtain ⟨x,hx,y,hy,hxy⟩ := (le_iff_rankLE _ _).mp hab
  obtain ⟨y',hy',z,hz,hyz⟩ := (le_iff_rankLE _ _).mp hbc
  obtain rfl := Option.mem_unique hy hy'
  exact decide_eq_true ((le_iff_rankLE _ _).mpr ⟨x,hx,z,hz,hxy.trans hyz⟩)

end DrawFormula.Decimal

namespace DrawFormula.Search

theorem tolerance_mem (p : Params) : p.tolerance ∈ [1,2,3,5,8] := by
  unfold Params.tolerance toleranceFor
  split_ifs <;> simp

/-- What is within the tolerance is within twice the tolerance. -/
theorem within_two {p : Params} {r : Found} (h : within p r 1 = true) : within p r 2 = true := by
  have hwider : ∀ n ∈ [1,2,3,5,8], Float.ofNat n * 1 ≤ Float.ofNat n * 2 := by decide +kernel
  simp only [within,decide_eq_true_eq] at h ⊢
  exact Decimal.le_trans h (hwider _ (tolerance_mem p))

end DrawFormula.Search
