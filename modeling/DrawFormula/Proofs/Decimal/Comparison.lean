import Mathlib

/-! # Comparisons of floating-point numbers

Of two numbers one comes first or both are equal, and negation turns the comparison around. Negation
takes a number apart and puts it together again with the other sign, which changes neither its
exponent nor its mantissa.
-/
namespace DrawFormula.Decimal
open Float.Model.UnpackedFloat
open Float.Model (UnpackedFloat Format)

/-! ## Comparison -/

theorem swap_compare_then (e e' : ℤ) (m m' : ℕ) :
    ((compare e e').then (compare m m')).swap = (compare e' e).then (compare m' m) := by
  rw [Ordering.swap_then,Int.compare_swap,Nat.compare_swap]

theorem compare_swap (a b : UnpackedFloat) : b.compare a = (a.compare b).map Ordering.swap := by
  rcases a with (_ | _) | _ | _ | ⟨_ | _,m,e,hm⟩ <;>
    rcases b with (_ | _) | _ | _ | ⟨_ | _,m',e',hm'⟩ <;>
    dsimp only [UnpackedFloat.compare,Option.map] <;>
    first | rfl | simp only [swap_compare_then]

theorem compare_neg (a b : UnpackedFloat) : b.neg.compare a.neg = a.compare b := by
  rcases a with (_ | _) | _ | _ | ⟨_ | _,m,e,hm⟩ <;>
    rcases b with (_ | _) | _ | _ | ⟨_ | _,m',e',hm'⟩ <;>
    dsimp only [UnpackedFloat.compare,neg,Neg.neg] <;>
    first | rfl | simp only [swap_compare_then]

theorem isSome_compare {a b : UnpackedFloat} (ha : a.isNaN = false) (hb : b.isNaN = false) :
    (a.compare b).isSome = true := by
  rcases a with (_ | _) | _ | _ | ⟨_ | _,m,e,hm⟩ <;>
    rcases b with (_ | _) | _ | _ | ⟨_ | _,m',e',hm'⟩ <;>
    first | rfl | contradiction

section Floats
variable {a b : Float}

theorem lt_iff_compare : a < b ↔ a.toModel.unpack.compare b.toModel.unpack = some .lt := by
  change decide (a.toModel < b.toModel) = true ↔ _
  rw [decide_eq_true_eq]
  exact beq_iff_eq

theorem le_iff_compare :
    a ≤ b ↔ (a.toModel.unpack.compare b.toModel.unpack).any Ordering.isLE = true := by
  change decide (a.toModel ≤ b.toModel) = true ↔ _
  rw [decide_eq_true_eq]
  rfl

theorem beq_iff_compare :
    (a == b) = true ↔ a.toModel.unpack.compare b.toModel.unpack = some .eq := by
  change (_ == some Ordering.eq) = true ↔ _
  rw [beq_iff_eq]

variable (ha : a.isNaN = false) (hb : b.isNaN = false)
include ha hb

theorem exists_compare : ∃ o, a.toModel.unpack.compare b.toModel.unpack = some o ∧
    b.toModel.unpack.compare a.toModel.unpack = some o.swap := by
  obtain ⟨o,ho⟩ := Option.isSome_iff_exists.mp (isSome_compare ha hb)
  refine ⟨o,ho,?_⟩
  rw [compare_swap,ho,Option.map_some]

theorem le_total : a ≤ b ∨ b ≤ a := by
  obtain ⟨o,ho,hswap⟩ := exists_compare ha hb
  rw [le_iff_compare,le_iff_compare,ho,hswap]
  cases o <;> decide

theorem not_le_iff_lt : ¬ b ≤ a ↔ a < b := by
  obtain ⟨o,ho,hswap⟩ := exists_compare ha hb
  rw [lt_iff_compare,le_iff_compare,ho,hswap]
  cases o <;> decide

theorem beq_iff_le : (a == b) = true ↔ a ≤ b ∧ b ≤ a := by
  obtain ⟨o,ho,hswap⟩ := exists_compare ha hb
  rw [beq_iff_compare,le_iff_compare,le_iff_compare,ho,hswap]
  cases o <;> decide

end Floats

/-! ## Negation -/

section Parts
variable {F : Format}

/-- The parts of a number with the other sign. -/
def turnedParts (b : BitVec F.numBits) : BitVec F.numBits :=
  packComponents F (-Sign.ofBitVec (unpackSign b)) (unpackExponent b) (unpackMantissa b)

theorem unpack_turnedParts (b : BitVec F.numBits) :
    unpack F (turnedParts b) = (unpack F b).neg := by
  simp only [turnedParts,unpack,unpackSign_packComponents,unpackExponent_packComponents,
    unpackMantissa_packComponents,Sign.ofBitVec_toBitVec]
  split_ifs <;> rfl

theorem unpack_pack_neg (hwide : 2 ≤ F.exponentBits) (b : BitVec F.numBits) :
    unpack F (pack F (unpack F b).neg) = (unpack F b).neg := by
  rw [← unpack_turnedParts,pack_unpack _ hwide]
  split
  · next hnan =>
    rw [isNaNBits,decide_eq_true_eq] at hnan
    rw [unpack_packedNaN,unpack,if_pos hnan.1,if_neg hnan.2]
  · rfl

end Parts

theorem unpack_neg (a : Float) : (-a).toModel.unpack = a.toModel.unpack.neg :=
  @unpack_pack_neg .binary64 (by decide) a.toModel.toBits.toBitVec

theorem neg_lt_neg_iff (a b : Float) : -b < -a ↔ a < b := by
  rw [lt_iff_compare,lt_iff_compare,unpack_neg,unpack_neg,compare_neg]

end DrawFormula.Decimal
