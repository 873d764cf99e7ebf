import DrawFormula.Proofs.Decimal.Comparison
import DrawFormula.Proofs.Decimal.Order
import DrawFormula.Proofs.Search.Selection

/-! # The order of the ranking

The first occurrences of the formulas are sorted twice, by fitness and then by hit rate. Each sort
keeps what it does not tell apart in the order it finds, so that together they sort by hit rate, then
by fitness, then by first occurrence. No two formulas are equal in this order, and what is ranked
once stays as it is.
-/
namespace DrawFormula.Search

/-! ## Stable sorting -/

section Stable
variable {α : Type} {le : α → α → Bool} {R : α → α → Prop} {l : List α}

/-- What a sort does not tell apart stays in the order of the list. -/
theorem pairwise_mergeSort_stable (htrans : ∀ a b c, le a b = true → le b c = true → le a c = true)
    (htotal : ∀ a b, (le a b || le b a) = true) (h : l.Pairwise R) :
    (l.mergeSort le).Pairwise fun a b => le a b = true ∧ (le b a = true → R a b) := by
  induction h with
  | nil => simp
  | @cons a l hhead _ ih =>
    -- The head of the list goes before all that it may stand before.
    obtain ⟨l₁,l₂,hcons,htail,hbefore⟩ := List.mergeSort_cons htrans htotal a l
    have hsorted := List.pairwise_mergeSort htrans htotal (a :: l)
    have hlater : ∀ b ∈ l₂, b ∈ l := fun b hb =>
      List.mem_mergeSort.mp (htail ▸ List.mem_append_right l₁ hb)
    rw [hcons,List.pairwise_append,List.pairwise_cons] at hsorted
    rw [htail,List.pairwise_append] at ih
    obtain ⟨-,⟨hafter,-⟩,hacross⟩ := hsorted
    obtain ⟨hfirst,hsecond,hboth⟩ := ih
    rw [hcons,List.pairwise_append,List.pairwise_cons]
    refine ⟨hfirst,⟨fun b hb => ⟨hafter b hb,fun _ => hhead b (hlater b hb)⟩,hsecond⟩,?_⟩
    intro b hb c hc
    rcases List.mem_cons.mp hc with rfl | hc
    · have hnot : le c b = false := by simpa using hbefore b hb
      exact ⟨hacross b hb c List.mem_cons_self,fun h => by simp [hnot] at h⟩
    · exact hboth b hb c hc

/-- It is enough that the order is one on the members of the list. -/
theorem pairwise_mergeSort_stable_on {P : α → Prop} (hP : ∀ a ∈ l, P a)
    (htrans : ∀ a b c, P a → P b → P c → le a b = true → le b c = true → le a c = true)
    (htotal : ∀ a b, P a → P b → le a b = true ∨ le b a = true) (h : l.Pairwise R) :
    (l.mergeSort le).Pairwise fun a b => le a b = true ∧ (le b a = true → R a b) := by
  have hmap : ((l.attachWith P hP).mergeSort fun a b => le a.1 b.1).map Subtype.val =
      l.mergeSort le := by
    rw [List.map_mergeSort (s := le) fun _ _ _ _ => rfl,List.attachWith_map_subtype_val]
  rw [← List.attachWith_map_subtype_val hP,List.pairwise_map] at h
  rw [← hmap,List.pairwise_map]
  exact pairwise_mergeSort_stable (fun a b c => htrans a b c a.2 b.2 c.2)
    (fun a b => by simpa using htotal a b a.2 b.2) h

end Stable

/-! ## The order -/

/-- Whether the numbers of a score can be compared. -/
structure Found.Comparable (r : Found) : Prop where
  hitRate : r.hitRate.isNaN = false
  fitness : r.fitness.isNaN = false

/-- Whether a hit rate comes first: the higher one for a target of at least fifty percent, else the
lower one. -/
def BetterRate (p : Params) (a b : Found) : Prop :=
  if 50 ≤ p.target then b.hitRate < a.hitRate else a.hitRate < b.hitRate

/-- Whether a formula comes before another: by its hit rate, then by its fitness, then by the place
where it is first found. -/
def Outranks (p : Params) (results : List Found) (a b : Found) : Prop :=
  BetterRate p a b ∨ (a.hitRate == b.hitRate) = true ∧
    (b.fitness < a.fitness ∨ (a.fitness == b.fitness) = true ∧ place results a < place results b)

/-- Whether formulas are the first ones in the order of the ranking. -/
structure IsRanking (p : Params) (results ranked : List Found) : Prop where
  nodup : (ranked.map Found.formula).Nodup
  first : ∀ r ∈ ranked, IsFirst results r
  length : ranked.length = min p.maxCount (results.map Found.formula).toFinset.card
  sorted : ranked.Pairwise (Outranks p results)
  top : ∀ r ∈ ranked, ∀ x, IsFirst results x → x.formula ∉ ranked.map Found.formula →
    ¬ Outranks p results x r

section Order
variable {p : Params} {results : List Found} {a b c : Found} {d : Bool}

theorem fitterFirst_iff (ha : a.Comparable) (hb : b.Comparable) :
    fitterFirst a b = true ↔ b.fitness ≤ a.fitness := by
  rw [fitterFirst,Bool.not_eq_true',decide_eq_false_iff_not,Decimal.neg_lt_neg_iff,
    ← Decimal.not_le_iff_lt ha.fitness hb.fitness,not_not]

theorem rateFirst_iff (ha : a.Comparable) (hb : b.Comparable) : rateFirst d a b = true ↔
    if d then b.hitRate ≤ a.hitRate else a.hitRate ≤ b.hitRate := by
  have hlt := Decimal.not_le_iff_lt ha.hitRate hb.hitRate
  have hgt := Decimal.not_le_iff_lt hb.hitRate ha.hitRate
  cases d <;> simp [rateFirst,← hlt,← hgt]

theorem fitterFirst_trans (ha : a.Comparable) (hb : b.Comparable) (hc : c.Comparable)
    (h : fitterFirst a b = true) (h' : fitterFirst b c = true) : fitterFirst a c = true := by
  rw [fitterFirst_iff ha hb] at h
  rw [fitterFirst_iff hb hc] at h'
  exact (fitterFirst_iff ha hc).mpr (Decimal.le_trans h' h)

theorem fitterFirst_total (ha : a.Comparable) (hb : b.Comparable) :
    fitterFirst a b = true ∨ fitterFirst b a = true := by
  rw [fitterFirst_iff ha hb,fitterFirst_iff hb ha]
  exact Decimal.le_total hb.fitness ha.fitness

theorem rateFirst_trans (ha : a.Comparable) (hb : b.Comparable) (hc : c.Comparable)
    (h : rateFirst d a b = true) (h' : rateFirst d b c = true) : rateFirst d a c = true := by
  rw [rateFirst_iff ha hb] at h
  rw [rateFirst_iff hb hc] at h'
  rw [rateFirst_iff ha hc]
  cases d with
  | true => exact Decimal.le_trans h' h
  | false => exact Decimal.le_trans h h'

theorem rateFirst_total (ha : a.Comparable) (hb : b.Comparable) :
    rateFirst d a b = true ∨ rateFirst d b a = true := by
  rw [rateFirst_iff ha hb,rateFirst_iff hb ha]
  cases d with
  | true => exact Decimal.le_total hb.hitRate ha.hitRate
  | false => exact Decimal.le_total ha.hitRate hb.hitRate

theorem betterRate_iff (ha : a.Comparable) (hb : b.Comparable) :
    BetterRate p a b ↔ ¬ rateFirst (50 ≤ p.target) b a = true := by
  rw [rateFirst_iff hb ha,BetterRate]
  by_cases htarget : 50 ≤ p.target
  · simp only [htarget,decide_true,if_true,Decimal.not_le_iff_lt hb.hitRate ha.hitRate]
  · simp [htarget,Decimal.not_le_iff_lt ha.hitRate hb.hitRate]

theorem sameRate_iff (ha : a.Comparable) (hb : b.Comparable) :
    (a.hitRate == b.hitRate) = true ↔ rateFirst d a b = true ∧ rateFirst d b a = true := by
  rw [rateFirst_iff ha hb,rateFirst_iff hb ha,Decimal.beq_iff_le ha.hitRate hb.hitRate]
  cases d with
  | true => exact and_comm
  | false => rfl

theorem sameFitness_iff (ha : a.Comparable) (hb : b.Comparable) :
    (a.fitness == b.fitness) = true ↔ fitterFirst a b = true ∧ fitterFirst b a = true := by
  rw [fitterFirst_iff ha hb,fitterFirst_iff hb ha,Decimal.beq_iff_le ha.fitness hb.fitness,
    and_comm]

/-- The order is what two stable sorts make, one by fitness and then one by hit rate. -/
theorem outranks_iff (ha : a.Comparable) (hb : b.Comparable) : Outranks p results a b ↔
    rateFirst (50 ≤ p.target) a b = true ∧ (rateFirst (50 ≤ p.target) b a = true →
      fitterFirst a b = true ∧ (fitterFirst b a = true → place results a < place results b)) := by
  have hrate := @rateFirst_total _ _ (50 ≤ p.target) ha hb
  have hfitness := fitterFirst_total ha hb
  rw [Outranks,betterRate_iff ha hb,sameRate_iff ha hb,sameFitness_iff ha hb,
    ← Decimal.not_le_iff_lt hb.fitness ha.fitness,← fitterFirst_iff hb ha]
  tauto

theorem Outranks.asymm (ha : a.Comparable) (hb : b.Comparable) (h : Outranks p results a b) :
    ¬ Outranks p results b a := by
  intro h'
  obtain ⟨hab,htie⟩ := (outranks_iff ha hb).mp h
  obtain ⟨hba,htie'⟩ := (outranks_iff hb ha).mp h'
  obtain ⟨hfit,hearlier⟩ := htie hba
  obtain ⟨hfit',hlater⟩ := htie' hab
  exact Nat.lt_asymm (hearlier hfit') (hlater hfit)

end Order

/-! ## The ranking -/

section Ranking
variable {p : Params} {results : List Found} (h : ∀ r ∈ results, r.Comparable)

include h in
theorem pairwise_ordered : (ordered p results).Pairwise (Outranks p results) := by
  have hfound : ∀ r ∈ distinct results, r.Comparable := fun r hr => h r (mem_distinct.mp hr).mem
  have hfitter : ∀ r ∈ (distinct results).mergeSort fitterFirst, r.Comparable := fun r hr =>
    hfound r (List.mem_mergeSort.mp hr)
  have hbyFitness := pairwise_mergeSort_stable_on hfound (fun _ _ _ => fitterFirst_trans)
    (fun _ _ => fitterFirst_total) (pairwise_place results)
  have hbyRate := pairwise_mergeSort_stable_on hfitter (fun _ _ _ => rateFirst_trans)
    (fun _ _ => @rateFirst_total _ _ (50 ≤ p.target)) hbyFitness
  refine hbyRate.imp_of_mem fun {a b} ha hb hab => ?_
  exact (outranks_iff (hfitter a (List.mem_mergeSort.mp ha))
    (hfitter b (List.mem_mergeSort.mp hb))).mpr hab

include h in
/-- What is left out stands behind what is kept in the list of all formulas. -/
theorem not_outranks_of_not_mem {r x : Found} (hr : r ∈ rank p results) (hx : IsFirst results x)
    (hout : x ∉ rank p results) : ¬ Outranks p results x r := by
  have hsorted : (ordered p results).Pairwise (Outranks p results) := pairwise_ordered h
  have hmem : x ∈ ordered p results := mem_ordered.mpr hx
  rw [← List.take_append_drop p.maxCount (ordered p results)] at hsorted hmem
  obtain ⟨-,-,hbehind⟩ := List.pairwise_append.mp hsorted
  have hdrop := (List.mem_append.mp hmem).resolve_left hout
  exact (hbehind r hr x hdrop).asymm (h r (isFirst_of_mem_rank hr).mem) (h x hx.mem)

include h in
theorem rank_rank : rank p (rank p results) = rank p results := by
  have hcomparable : ∀ r ∈ rank p results, r.Comparable := fun r hr =>
    h r (isFirst_of_mem_rank hr).mem
  have hdistinct := distinct_of_nodup (nodup_formulas_rank p results)
  have hperm := ordered_perm p (rank p results)
  have hplace := pairwise_place (rank p results)
  rw [hdistinct] at hperm hplace
  have hsorted : (rank p results).Pairwise (Outranks p results) :=
    (pairwise_ordered h).sublist (List.take_sublist _ _)
  -- Its own order settles the ties of the ranking as the order of the results does.
  have hself : (rank p results).Pairwise (Outranks p (rank p results)) := by
    refine (hsorted.and hplace).imp_of_mem fun {a b} ha hb hab => ?_
    obtain ⟨hrate,htie⟩ := (outranks_iff (hcomparable a ha) (hcomparable b hb)).mp hab.1
    exact (outranks_iff (hcomparable a ha) (hcomparable b hb)).mpr
      ⟨hrate,fun hba => ⟨(htie hba).1,fun _ => hab.2⟩⟩
  have hordered : ordered p (rank p results) = rank p results := by
    refine hperm.eq_of_pairwise (fun a b ha hb hab hba => ?_) (pairwise_ordered hcomparable) hself
    exact absurd hba (hab.asymm (hcomparable a (hperm.mem_iff.mp ha)) (hcomparable b hb))
  rw [rank_eq_take p (rank p results),hordered,List.take_of_length_le]
  exact List.length_take_le _ _

/-- The ranking is the top of the order, and ranking it again leaves it as it is. -/
theorem rank_top (p : Params) {results : List Found} (h : ∀ r ∈ results, r.Comparable) :
    IsRanking p results (rank p results) ∧ rank p (rank p results) = rank p results where
  left := {
    nodup := nodup_formulas_rank p results
    first := fun _ hr => isFirst_of_mem_rank hr
    length := length_rank p results
    sorted := (pairwise_ordered h).sublist (List.take_sublist _ _)
    top := fun _ hr _ hx hout => not_outranks_of_not_mem h hr hx fun hmem =>
      hout (List.mem_map_of_mem hmem) }
  right := rank_rank h

/-- Five results: one formula is found twice, and two formulas are equal in both numbers. -/
def tiedResults : List Found :=
  [⟨['甲'],0.5,1,2,1⟩,⟨['乙'],0.5,1,2,2⟩,⟨['丙'],0.5,1,2,1⟩,⟨['甲'],1,2,2,3⟩,⟨['丁'],0.25,1,4,3⟩]

theorem rank_tiedResults :
    let p := Params.make 60 3 .fast [] 0 15 0 0 none none none
    (∀ r ∈ tiedResults, r.Comparable) ∧ IsRanking p tiedResults (rank p tiedResults) ∧
      rank p (rank p tiedResults) = rank p tiedResults := by
  have hcomparable : ∀ r ∈ tiedResults, r.Comparable := by
    have hnumbers : ∀ r ∈ tiedResults, r.hitRate.isNaN = false ∧ r.fitness.isNaN = false := by
      decide +kernel
    exact fun r hr => ⟨(hnumbers r hr).1,(hnumbers r hr).2⟩
  exact ⟨hcomparable,rank_top _ hcomparable⟩

end Ranking
end DrawFormula.Search
