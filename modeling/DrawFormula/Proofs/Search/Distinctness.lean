import DrawFormula.Proofs.Search.Building

/-! # Candidates without repetition

An item is added to the elements of a candidate only if it is new. So whatever the source of random
numbers yields, candidates around a seed and from templates are sums of pairwise distinct names,
although the pools from which they are filled hold names more than once, and an item may be left out
when its draws are used up.
-/
namespace DrawFormula.Search
variable {γ : Type} {p : Params} {t : ResultType} {rule : Rule}

/-- Whether a state differs from another one at most in the random numbers to come. -/
def SameButRandom (s s' : State γ) : Prop := ∃ random, s' = { s with random := random }

theorem SameButRandom.refl (s : State γ) : SameButRandom s s := ⟨s.random,rfl⟩

theorem SameButRandom.draws (s : State γ) : ∀ (s' : State γ) (random : γ),
    SameButRandom s s' → SameButRandom s { s' with random := random } := by
  rintro _ random ⟨-,rfl⟩
  exact ⟨random,rfl⟩

/-- A text is the sum of a list of pairwise distinct names, whose length is bounded. -/
structure SumOfDistinct (p : Params) (rule : Rule) (t : ResultType) (least most : ℕ)
    (names : List Text) (text : Text) : Prop where
  text_eq : text = build p rule t names none
  nodup : names.Nodup
  least_le : least ≤ names.length
  length_le : names.length ≤ most

theorem templates_nodup (t : ResultType) : ∀ names ∈ templates t, names.Nodup := by
  cases t <;> decide

theorem leastElements_le_mostElements (s : Strategy) : s.leastElements ≤ s.mostElements := by
  cases s <;> decide

variable [RandomSource γ]

theorem fillUnused_distinct (s : State γ) (pool : List Text) (hpool : pool ≠ []) (count : ℕ)
    {elements : List Text} (h : elements.Nodup) :
    (fillUnused pool hpool count elements : Step γ (List Text)).Ensures (SameButRandom s) False
      fun filled => filled.Nodup ∧ ∃ added, filled = elements ++ added ∧ added.length ≤ count ∧
        ∀ e ∈ added, e ∈ pool := by
  refine (fillUnused_ensures (SameButRandom.draws s) pool hpool count elements).mono ?_
  intro filled hfilled
  refine ⟨hfilled.nodup h,?_⟩
  obtain ⟨added,hadded,hlength,hmem,-⟩ := hfilled
  exact ⟨added,hadded,hlength,hmem⟩

theorem fromSeed_distinct (s : State γ) (seed : Text) :
    (fromSeed p seed t rule : Step γ Text).Ensures (SameButRandom s) (¬ p.Writable) fun text =>
      ∃ others, SumOfDistinct p rule t 1 8 (seed :: others) text ∧
        (∀ e ∈ others, e ∈ elementNames) ∧ (seed ∈ elementNames →
          terms (sumWith p rule t (seed :: others) none).expression = seed :: others) := by
  refine (fromSeed_filled (SameButRandom.draws s) (fun hw => hw) seed t rule).mono ?_
  rintro text ⟨-,names,hnames,htext⟩
  have hnodup := hnames.nodup (List.nodup_singleton seed)
  have hlength := hnames.length_le
  obtain ⟨others,rfl,-,hknown,-⟩ := hnames
  refine ⟨others,⟨htext,hnodup,by simp,hlength⟩,hknown,fun hseed => ?_⟩
  exact terms_intercalate (List.forall_mem_cons.mpr ⟨hseed,hknown⟩)

theorem fromTemplate_distinct (s : State γ) :
    (fromTemplate p t rule : Step γ (Option Text)).Ensures (SameButRandom s) (¬ p.Writable)
      fun candidate => ∀ text ∈ candidate,
        ∃ names, SumOfDistinct p rule t 3 p.strategy.mostElements names text ∧
          terms (sumWith p rule t names none).expression = names := by
  refine (fromTemplate_filled (SameButRandom.draws s) (fun hw => hw) t rule).mono ?_
  intro candidate h text htext
  obtain ⟨-,template,htemplate,size,count,names,hnames,hthree,hmost,htext⟩ := h text htext
  rw [max_eq_right (leastElements_le_mostElements _)] at hmost
  have hbase : (template.take size).Nodup :=
    (templates_nodup t template htemplate).sublist (List.take_sublist size template)
  refine ⟨names,⟨htext,hnames.nodup hbase,hthree,hmost⟩,?_⟩
  refine terms_intercalate (hnames.forall_mem (fun e he => ?_) (pool_known t))
  exact templates_known t template htemplate e (List.mem_of_mem_take he)

/-- Whatever is drawn, a list without repetition is filled up without one, and nothing but the
source of random numbers changes; hence the sums around a seed have one to eight elements, those
from templates three or more, all of them pairwise distinct. Only settings that cannot be written
are a failure. -/
theorem candidates_distinct (s : State γ) :
    (∀ (pool : List Text) (hpool : pool ≠ []) (count : ℕ) (elements : List Text), elements.Nodup →
      (fillUnused pool hpool count elements : Step γ (List Text)).Ensures (SameButRandom s) False
        fun filled => filled.Nodup ∧ ∃ added, filled = elements ++ added ∧
          added.length ≤ count ∧ ∀ e ∈ added, e ∈ pool) ∧
    ∀ (p : Params) (t : ResultType) (rule : Rule),
      (∀ seed, (fromSeed p seed t rule : Step γ Text).Ensures (SameButRandom s) (¬ p.Writable)
        fun text => ∃ others, SumOfDistinct p rule t 1 8 (seed :: others) text ∧
          (∀ e ∈ others, e ∈ elementNames) ∧ (seed ∈ elementNames →
            terms (sumWith p rule t (seed :: others) none).expression = seed :: others)) ∧
      (fromTemplate p t rule : Step γ (Option Text)).Ensures (SameButRandom s) (¬ p.Writable)
        fun candidate => ∀ text ∈ candidate,
          ∃ names, SumOfDistinct p rule t 3 p.strategy.mostElements names text ∧
            terms (sumWith p rule t names none).expression = names :=
  ⟨fun pool hpool count _ h => fillUnused_distinct s pool hpool count h,
    fun _ _ _ => ⟨fromSeed_distinct s,fromTemplate_distinct s⟩⟩

/-- The source that draws the numbers of a list, reduced below the bound, and zeros after them. -/
@[reducible] def listedSource : RandomSource (List ℕ) where
  unit g := (0,g.tail)
  below n h g := (⟨g.headD 0 % n,Nat.mod_lt _ h⟩,g.tail)

/-- Two draws meet a name that is there, and of three names one is given up after twenty draws. -/
theorem candidates_distinct_listedSource :
    let _ : RandomSource (List ℕ) := listedSource
    let filling : Step (List ℕ) (List Text) :=
      fillUnused [['甲'],['乙'],['甲'],['丙']] (List.cons_ne_nil _ _) 3 [['甲']]
    let s : State (List ℕ) := .initial [0,2,1,3] 1
    [['甲']].Nodup ∧ (filling.runFrom s).1 = .ok [['甲'],['乙'],['丙']] ∧
      [['甲'],['乙'],['丙']].Nodup := by
  intro source filling s
  have hnodup : [['甲']].Nodup := List.nodup_singleton _
  have hrun : (filling.runFrom s).1 = .ok [['甲'],['乙'],['丙']] := by decide +kernel
  have hfilling : filling.Ensures (SameButRandom s) False _ :=
    (candidates_distinct s).1 _ (List.cons_ne_nil _ _) 3 _ hnodup
  exact ⟨hnodup,hrun,(hfilling.result (.refl s) hrun).1⟩

end DrawFormula.Search
