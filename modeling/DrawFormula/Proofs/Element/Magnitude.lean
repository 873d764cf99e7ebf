import DrawFormula.Element.Basic
import DrawFormula.Proofs.Text.Decimal
import Mathlib.Data.Nat.Init

/-! # The size of element values

Every element that depends on the numbers and the period alone has a value from 0 to 999, whatever
the draw.
-/
namespace DrawFormula

/-! ## Digit sums and classes -/

namespace Number

/-- The sum of the digits of a numeral. -/
theorem digitSum_ofNat (n : ℕ) :
    digitSum n = (((Text.ofNat n).map fun c => (Text.digitValue? c).getD 0).sum : ℕ) := by
  rw [digitSum,Int.natAbs_natCast,List.sum,List.foldr_map]

theorem digitValue?_digitChar {k : ℕ} (h : k < 10) : Text.digitValue? k.digitChar = some k := by
  have table : ∀ k < 10, Text.digitValue? k.digitChar = some k := by decide
  exact table k h

theorem digitSum_natCast_le (n : ℕ) : digitSum n ≤ n := by
  induction n using Nat.strong_induction_on with
  | _ n ih =>
    rw [digitSum_ofNat,Text.ofNat,Nat.toDigits_eq_if (by decide)]
    split
    · next h => simp [digitValue?_digitChar h]
    · next h =>
      have hq := ih (n / 10) (by omega)
      have hr := digitValue?_digitChar (Nat.mod_lt n (by decide : 10 > 0))
      rw [digitSum_ofNat,Text.ofNat] at hq
      simp only [List.map_append,List.sum_append,List.map_cons,List.map_nil,List.sum_singleton,hr,
        Option.getD_some]
      omega

theorem digitSum_bounds {n : ℤ} (h : 0 ≤ n) : 0 ≤ digitSum n ∧ digitSum n ≤ n := by
  obtain ⟨k,rfl⟩ := Int.eq_ofNat_of_zero_le h
  exact ⟨by rw [digitSum]; omega,digitSum_natCast_le k⟩

theorem classOf_bounds (classes : List (List ℤ)) (n : ℤ) :
    0 ≤ classOf classes n ∧ classOf classes n ≤ classes.length := by
  unfold classOf
  cases h : classes.findIdx? (·.contains n) with
  | none => simp
  | some i =>
    have hi := (List.findIdx?_eq_some_iff_getElem.mp h).1
    simp only [Option.getD_some]
    omega

end Number

/-! ## Attributes and readings -/

theorem Attribute.value_bounds (a : Attribute) {n year : ℤ} (h : 1 ≤ n ∧ n ≤ 49) :
    0 ≤ a.value n year ∧ a.value n year < 1000 := by
  have hsum := Number.digitSum_bounds (n := n) (by omega)
  cases a with
  | number => exact ⟨by simp only [value]; omega,by simp only [value]; omega⟩
  | head => simp only [value,Int.fdiv_eq_ediv_of_nonneg _ (by decide : (0 : ℤ) ≤ 10)]; omega
  | tail => simp only [value,Int.fmod_eq_emod_of_nonneg _ (by decide : (0 : ℤ) ≤ 10)]; omega
  | digitSum => simp only [value]; omega
  | digitSumHead => simp only [value,Int.fdiv_eq_ediv_of_nonneg _ (by decide : (0 : ℤ) ≤ 10)]; omega
  | digitSumTail => simp only [value,Int.fmod_eq_emod_of_nonneg _ (by decide : (0 : ℤ) ≤ 10)]; omega
  | wave =>
    have hw := Number.classOf_bounds Number.waves n
    have hlen : Number.waves.length = 3 := rfl
    simp only [value,Number.wave]
    omega
  | segment =>
    simp only [value,Number.segment,Int.fdiv_eq_ediv_of_nonneg _ (by decide : (0 : ℤ) ≤ 7)]
    split <;> omega
  | phase =>
    have hsnake := Number.classOf_bounds Number.phasesOfSnake n
    have hhorse := Number.classOf_bounds Number.phasesOfHorse n
    have hlen : Number.phasesOfSnake.length = 5 ∧ Number.phasesOfHorse.length = 5 := ⟨rfl,rfl⟩
    simp only [value,Number.phase]
    split <;> omega
  | zodiac =>
    simp only [value,Number.zodiac,Number.zodiacOwner,
      Int.fmod_eq_emod_of_nonneg _ (by decide : (0 : ℤ) ≤ 12)]
    split <;> omega

theorem Reading.value_bounds (r : Reading) {q : ℤ} (h : 0 ≤ q ∧ q < 1000) :
    0 ≤ r.value q ∧ r.value q < 1000 := by
  have hsum := Number.digitSum_bounds h.1
  cases r with
  | whole => exact h
  | tail => simp only [value,Int.fmod_eq_emod_of_nonneg _ (by decide : (0 : ℤ) ≤ 10)]; omega
  | digitSum => simp only [value]; omega
  | digitSumTail => simp only [value,Int.fmod_eq_emod_of_nonneg _ (by decide : (0 : ℤ) ≤ 10)]; omega

/-! ## Draws -/

namespace Draw
variable (d : Draw)

theorem special_bounds : 1 ≤ d.special ∧ d.special ≤ 49 :=
  d.numbers_inRange d.special (List.get_mem _ _)

theorem pingAt_bounds (sorted : Bool) (place : Fin 6) :
    1 ≤ d.pingAt sorted place ∧ d.pingAt sorted place ≤ 49 := by
  apply d.numbers_inRange
  have hmem : d.pingAt sorted place ∈ d.ping sorted := List.get_mem _ _
  cases sorted with
  | false => exact List.mem_of_mem_take hmem
  | true => exact List.mem_of_mem_take (List.mem_mergeSort.mp hmem)

theorem sum_bounds : 0 ≤ d.sum ∧ d.sum < 1000 := by
  have hsum : ∀ ns : List ℤ, (∀ n ∈ ns, Number.least ≤ n ∧ n ≤ Number.greatest) →
      (0 : ℤ) ≤ ns.foldr (· + ·) 0 ∧ ns.foldr (· + ·) 0 ≤ (49 * ns.length : ℤ) := by
    intro ns
    induction ns with
    | nil => simp
    | cons n ns ih =>
      intro h
      have hn := h n (by simp)
      have hns := ih (fun m hm => h m (by simp [hm]))
      simp only [Number.least,Number.greatest] at hn
      simp only [List.foldr_cons,List.length_cons]
      omega
  have h := hsum d.numbers d.numbers_inRange
  rw [d.length_numbers] at h
  exact ⟨h.1,by rw [sum]; omega⟩

end Draw

/-- The values of the elements that depend on the numbers and the period alone. -/
theorem Element.value_bounds (d : Draw) (sorted : Bool) {e : Element} (h : e ∈ Element.all) :
    0 ≤ e.value d sorted ∧ e.value d sorted < 1000 := by
  have hperiod : 0 ≤ d.period.fmod 1000 ∧ d.period.fmod 1000 < 1000 := by
    rw [Int.fmod_eq_emod_of_nonneg _ (by decide)]
    omega
  cases e with
  | period r => exact r.value_bounds hperiod
  | total r => exact r.value_bounds d.sum_bounds
  | ping place a => exact a.value_bounds (d.pingAt_bounds sorted place)
  | special a => exact a.value_bounds d.special_bounds
  | weekday => exact absurd h (by decide)
  | stem => exact absurd h (by decide)
  | branch => exact absurd h (by decide)
  | stemBranch => exact absurd h (by decide)

end DrawFormula
