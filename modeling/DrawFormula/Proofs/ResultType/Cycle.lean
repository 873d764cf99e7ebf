import DrawFormula.Proofs.Element.Magnitude
import DrawFormula.ResultType
import Mathlib.Data.Int.ModEq
import Mathlib.Data.List.Nodup

/-! # Values around a cycle

The values of a result type are consecutive numbers, and every integer is reduced to the one that is
congruent to it. A value is expanded to those that are so many steps from it at most: wider
expansions hold more, and one as long as the cycle holds all. The value of each number of a draw, in
whatever year, is one of them.
-/
namespace DrawFormula

/-! ## The cycle -/

namespace ResultType
variable {t : ResultType} {v base left right : ℤ}

theorem cycle_pos (t : ResultType) : (0 : ℤ) < t.cycle := by
  cases t <;> decide

theorem emod_le_self {a n : ℤ} (hn : 0 < n) (ha : 0 ≤ a) : a % n ≤ a := by
  rcases lt_or_ge a n with hlt | hge
  · exact (Int.emod_eq_of_lt ha hlt).le
  · exact (Int.emod_lt_of_pos a hn).le.trans hge

theorem fmod_cycle (t : ResultType) (n : ℤ) : n.fmod t.cycle = n % t.cycle :=
  Int.fmod_eq_emod_of_nonneg n t.cycle_pos.le

theorem mem_domain : v ∈ t.domain ↔ t.first ≤ v ∧ v < t.first + t.cycle := by
  simp only [domain,List.mem_map,List.mem_range,Int.ofNat_eq_natCast]
  constructor
  · rintro ⟨i,hi,rfl⟩
    omega
  · rintro ⟨hfirst,hlast⟩
    exact ⟨(v - t.first).toNat,by omega,by omega⟩

theorem reduce_mem_domain (t : ResultType) (n : ℤ) : t.reduce n ∈ t.domain := by
  have hleast := Int.emod_nonneg (n - t.first) t.cycle_pos.ne'
  have hgreatest := Int.emod_lt_of_pos (n - t.first) t.cycle_pos
  rw [mem_domain,reduce,fmod_cycle]
  omega

theorem dvd_sub_reduce (t : ResultType) (n : ℤ) : (t.cycle : ℤ) ∣ n - t.reduce n := by
  have hrest := (Int.mod_modEq (n - t.first) t.cycle).dvd
  rwa [← fmod_cycle,sub_sub,add_comm] at hrest

/-- A number is reduced to the value that it is congruent to. -/
theorem reduce_eq_of_dvd {n : ℤ} (hv : v ∈ t.domain) (h : (t.cycle : ℤ) ∣ n - v) :
    t.reduce n = v := by
  rw [mem_domain] at hv
  have hplace : (v - t.first) % t.cycle = (n - t.first) % t.cycle :=
    Int.modEq_iff_dvd.mpr (by rwa [sub_sub_sub_cancel_right])
  rw [reduce,fmod_cycle,← hplace,Int.emod_eq_of_lt (by omega) (by omega)]
  omega

/-! ## Expansions -/

/-- A value is expanded to what its neighbours on both sides are reduced to. -/
theorem mem_expand : v ∈ t.expand base left right ↔
    ∃ i, -max 0 left ≤ i ∧ i ≤ max 0 right ∧ t.reduce (base + i) = v := by
  rw [expand,List.mem_filter,decide_eq_true_eq,fmod_cycle]
  constructor
  · rintro ⟨hv,hnear⟩
    have hleast := Int.emod_nonneg (v - (base - max 0 left)) t.cycle_pos.ne'
    refine ⟨(v - (base - max 0 left)) % t.cycle - max 0 left,by omega,by omega,?_⟩
    have hrest := (Int.mod_modEq (v - (base - max 0 left)) t.cycle).dvd
    refine reduce_eq_of_dvd hv ((Int.dvd_neg.mpr hrest).trans (dvd_of_eq ?_))
    omega
  · rintro ⟨i,hleft,hright,rfl⟩
    refine ⟨reduce_mem_domain t _,?_⟩
    have hplace : (t.reduce (base + i) - (base - max 0 left)) % t.cycle =
        (i + max 0 left) % t.cycle := by
      refine Int.modEq_iff_dvd.mpr ((dvd_sub_reduce t (base + i)).trans (dvd_of_eq ?_))
      omega
    have hsteps := emod_le_self (n := t.cycle) t.cycle_pos (show 0 ≤ i + max 0 left by omega)
    omega

/-- Wider expansions hold more. -/
theorem expand_subset {left' right' : ℤ} (hleft : left ≤ left') (hright : right ≤ right') :
    t.expand base left right ⊆ t.expand base left' right' := by
  intro v hv
  obtain ⟨i,hi,hi',hreduce⟩ := mem_expand.mp hv
  exact mem_expand.mpr ⟨i,by omega,by omega,hreduce⟩

/-- An expansion as long as the cycle holds every value. -/
theorem expand_eq_domain (h : (t.cycle : ℤ) ≤ left + right + 1) :
    t.expand base left right = t.domain := by
  refine List.filter_eq_self.mpr fun v _ => decide_eq_true ?_
  have hgreatest := Int.emod_lt_of_pos (v - (base - max 0 left)) t.cycle_pos
  rw [fmod_cycle]
  omega

/-! ## Values that are congruent -/

theorem reduce_modEq (t : ResultType) (n : ℤ) : t.reduce n ≡ n [ZMOD t.cycle] :=
  Int.modEq_iff_dvd.mpr (dvd_sub_reduce t n)

theorem reduce_eq_iff {n : ℤ} : t.reduce n = v ↔ v ∈ t.domain ∧ v ≡ n [ZMOD t.cycle] := by
  constructor
  · rintro rfl
    exact ⟨reduce_mem_domain t n,reduce_modEq t n⟩
  · rintro ⟨hv,hn⟩
    exact reduce_eq_of_dvd hv hn.dvd

theorem reduce_congr {m n : ℤ} (h : m ≡ n [ZMOD t.cycle]) : t.reduce m = t.reduce n :=
  reduce_eq_iff.mpr ⟨reduce_mem_domain t n,(reduce_modEq t n).trans h.symm⟩

theorem expand_congr {base' : ℤ} (h : base ≡ base' [ZMOD t.cycle]) :
    t.expand base left right = t.expand base' left right := by
  refine List.filter_congr fun v _ => ?_
  have hsteps : (v - (base - max 0 left)) % t.cycle = (v - (base' - max 0 left)) % t.cycle :=
    (h.sub_right _).sub_left v
  rw [fmod_cycle,fmod_cycle,hsteps]

theorem add_cycle_mul_modEq (t : ResultType) (n cycles : ℤ) :
    n + t.cycle * cycles ≡ n [ZMOD t.cycle] := by
  rw [Int.ModEq,Int.add_mul_emod_self_left]

/-! ## Order and size of expansions -/

theorem pairwise_domain (t : ResultType) : t.domain.Pairwise (· < ·) := by
  rw [domain,List.pairwise_map]
  refine List.pairwise_lt_range.imp fun {i j} hij => ?_
  simp only [Int.ofNat_eq_natCast]
  omega

theorem pairwise_expand (t : ResultType) (base left right : ℤ) :
    (t.expand base left right).Pairwise (· < ·) := t.pairwise_domain.filter _

/-- The first so many values from a base on, once around the cycle at most. -/
def valuesFrom (t : ResultType) (base : ℤ) (count : ℕ) : List ℤ :=
  (List.range (min t.cycle count)).map fun i => t.reduce (base + Int.ofNat i)

theorem nodup_valuesFrom (t : ResultType) (base : ℤ) (count : ℕ) :
    (t.valuesFrom base count).Nodup := by
  refine List.Nodup.map_on (fun i hi j hj hij => ?_) List.nodup_range
  rw [List.mem_range] at hi hj
  have hcongr : Int.ofNat i ≡ Int.ofNat j [ZMOD t.cycle] :=
    Int.ModEq.add_left_cancel' base
      (((reduce_modEq t _).symm.trans (by rw [hij])).trans (reduce_modEq t _))
  have hplace : i % t.cycle = j % t.cycle := Int.natCast_modEq_iff.mp hcongr
  rwa [Nat.mod_eq_of_lt (by omega),Nat.mod_eq_of_lt (by omega)] at hplace

theorem mem_valuesFrom {count : ℕ} : v ∈ t.valuesFrom base count ↔
    v ∈ t.domain ∧ (v - base) % t.cycle < count := by
  have hcycle := t.cycle_pos
  simp only [valuesFrom,List.mem_map,List.mem_range,reduce_eq_iff,Int.ofNat_eq_natCast]
  constructor
  · rintro ⟨i,hi,hv,hcongr⟩
    refine ⟨hv,?_⟩
    have hplace : (v - base) % t.cycle = (i : ℤ) % t.cycle := by
      have hsteps := hcongr.sub_right base
      rwa [add_sub_cancel_left] at hsteps
    rw [hplace,Int.emod_eq_of_lt (by omega) (by omega)]
    omega
  · rintro ⟨hv,hnear⟩
    have hleast := Int.emod_nonneg (v - base) hcycle.ne'
    have hgreatest := Int.emod_lt_of_pos (v - base) hcycle
    refine ⟨((v - base) % t.cycle).toNat,by omega,hv,?_⟩
    rw [Int.toNat_of_nonneg hleast]
    have hsteps := (Int.mod_modEq (v - base) t.cycle).symm.add_left base
    rwa [add_sub_cancel] at hsteps

/-- An expansion holds the values from its first neighbour on, in ascending order. -/
theorem expand_perm (t : ResultType) (base left right : ℤ) : (t.expand base left right).Perm
    (t.valuesFrom (base - max 0 left) (max 0 left + max 0 right + 1).toNat) := by
  refine (List.perm_ext_iff_of_nodup ?_ (nodup_valuesFrom t _ _)).mpr fun v => ?_
  · exact (t.pairwise_expand base left right).imp ne_of_lt
  · rw [expand,List.mem_filter,decide_eq_true_eq,fmod_cycle,mem_valuesFrom]
    exact and_congr_right fun _ => by omega

theorem length_expand (t : ResultType) (base left right : ℤ) :
    ((t.expand base left right).length : ℤ) =
      min (t.cycle : ℤ) (max 0 left + max 0 right + 1) := by
  rw [(t.expand_perm base left right).length_eq,valuesFrom,List.length_map,List.length_range]
  omega

end ResultType

/-! ## The values of numbers -/

namespace Number
variable {n : ℤ}

theorem mem_all : n ∈ all ↔ least ≤ n ∧ n ≤ greatest := by
  simp only [all,List.mem_map,List.mem_range,least,greatest,Int.ofNat_eq_natCast]
  constructor
  · rintro ⟨i,hi,rfl⟩
    omega
  · rintro ⟨hleast,hgreatest⟩
    exact ⟨(n - 1).toNat,by omega,by omega⟩

theorem classOf_lt (classes : List (List ℤ)) (h : classes ≠ []) (n : ℤ) :
    classOf classes n < classes.length := by
  rw [classOf,Int.ofNat_lt]
  cases hplace : classes.findIdx? (·.contains n) with
  | none => exact List.length_pos_iff.mpr h
  | some i => exact (List.findIdx?_eq_some_iff_findIdx_eq.mp hplace).1

theorem wave_bounds (n : ℤ) : 0 ≤ wave n ∧ wave n < 3 :=
  ⟨(classOf_bounds waves n).1,classOf_lt waves (by decide) n⟩

theorem phase_bounds (n year : ℤ) : 0 ≤ phase n year ∧ phase n year < 5 := by
  unfold phase
  split
  · exact ⟨(classOf_bounds phasesOfSnake n).1,classOf_lt phasesOfSnake (by decide) n⟩
  · exact ⟨(classOf_bounds phasesOfHorse n).1,classOf_lt phasesOfHorse (by decide) n⟩

section Drawn
variable (h : least ≤ n ∧ n ≤ greatest)
include h

theorem head_bounds : 0 ≤ n.fdiv 10 ∧ n.fdiv 10 < 5 := by
  obtain ⟨hleast,hgreatest⟩ : 1 ≤ n ∧ n ≤ 49 := h
  rw [Int.fdiv_eq_ediv_of_nonneg n (by decide)]
  omega

theorem digitSum_drawn_bounds : 1 ≤ digitSum n ∧ digitSum n < 14 := by
  have hall : ∀ n ∈ all, 1 ≤ digitSum n ∧ digitSum n < 14 := by decide +kernel
  exact hall n (mem_all.mpr h)

theorem zodiac_bounds (year : ℤ) : 1 ≤ zodiac n year ∧ zodiac n year < 13 := by
  rw [zodiac,if_pos h,zodiacOwner]
  have hfirst := Int.fmod_nonneg_of_pos (year - zodiacGroup n) (by decide : (0 : ℤ) < 12)
  have hlast := Int.fmod_lt_of_pos (year - zodiacGroup n) (by decide : (0 : ℤ) < 12)
  omega

theorem sizeParity_bounds : 0 ≤ sizeParity n ∧ sizeParity n < 4 := by
  rw [sizeParity,if_pos h]
  split <;> split <;> decide

end Drawn

end Number

/-- Each attribute of a number that can be drawn is a value of its result type. -/
theorem ResultType.valueOf_mem_domain (t : ResultType) {n : ℤ}
    (h : Number.least ≤ n ∧ n ≤ Number.greatest) (year : Option ℤ) :
    t.valueOf n year ∈ t.domain := by
  rw [mem_domain]
  cases t with
  | tail => exact ⟨Int.fmod_nonneg_of_pos n (by decide),Int.fmod_lt_of_pos n (by decide)⟩
  | head => exact Number.head_bounds h
  | digitSum => exact Number.digitSum_drawn_bounds h
  | wave => exact Number.wave_bounds n
  | fivePhase => exact Number.phase_bounds n _
  | zodiac => exact Number.zodiac_bounds h _
  | single => exact ⟨h.1,Int.lt_add_one_of_le h.2⟩
  | sizeParity => exact Number.sizeParity_bounds h

/-! ## The numbers of values -/

namespace ResultType
variable {t : ResultType} {v n : ℤ} {year : Option ℤ}

theorem mem_numbersFor : n ∈ t.numbersFor v year ↔
    (Number.least ≤ n ∧ n ≤ Number.greatest) ∧ t.valueOf n year = v := by
  rw [numbersFor,List.mem_filter,Number.mem_all,decide_eq_true_eq]

theorem contains_numbersFor (h : Number.least ≤ n ∧ n ≤ Number.greatest) :
    (t.numbersFor v year).contains n = (v == t.valueOf n year) := by
  rw [Bool.eq_iff_iff,List.contains_iff_mem,mem_numbersFor,beq_iff_eq,eq_comm (a := v)]
  exact and_iff_right h

/-- A number has one of some values just if its own value is among them. -/
theorem any_contains_numbersFor (h : Number.least ≤ n ∧ n ≤ Number.greatest) (vs : List ℤ) :
    (vs.any fun v => (t.numbersFor v year).contains n) = vs.contains (t.valueOf n year) := by
  simp only [contains_numbersFor h]
  rw [Bool.eq_iff_iff,List.any_eq_true,List.contains_iff_mem]
  simp

end ResultType

end DrawFormula
