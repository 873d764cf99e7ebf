import DrawFormula.Proofs.Decimal.Order
import DrawFormula.Proofs.Search.Candidates

/-! # What a search as a whole ensures

A search is made of a few primitive steps: it draws at random, asks whether to stop, counts, sends
messages, tries candidates, and takes note of what it finds. What is laid down for each of them, as
a contract, holds for the whole search, whatever its strategy.
-/
namespace DrawFormula.Search
variable {γ : Type}

/-- A contract on the primitive steps of a search that is under way: they stay in a class of states
and fail for a reason only, provided that the texts that are tried are fit, and that what is found
has a score and is near the target. -/
structure Conduct (setting : Setting) (slack : Float) (I : State γ → Prop) (E : Prop)
    (Fit : Text → Prop) (Scored : Found → Prop) : Prop where
  draws : ∀ (s : State γ) (random : γ), I s → I { s with random := random }
  asks : ∀ s : State γ, I s → I { s with asked := s.asked + 1 }
  reports : ∀ s : State γ, I s → I { s with
    progress := s.progress ++
      [⟨s.processed,max s.total s.processed,s.results.length,s.results⟩] }
  counts : ∀ (s : State γ) (n : ℕ), I s → I { s with processed := s.processed + n }
  leavesOut : ∀ (s : State γ) (n : ℕ), I s →
    I { s with processed := s.processed + n, pruned := s.pruned + n }
  rates : ∀ (s : State γ) (rates : Std.HashMap Text (Option Float)),
    I s → I { s with rates := rates }
  finds : ∀ (s : State γ) (found : List Found),
    (∀ r ∈ found, Scored r ∧ within setting.params r slack = true) →
      I s → I { s with results := s.results ++ found }
  scores : ∀ text, Fit text →
    (score setting text : Step γ (Option Found)).Ensures I E fun found => ∀ r ∈ found, Scored r

/-- A contract on all primitive steps of a search, its first one included, which says how many
candidates are expected. -/
structure Contract (setting : Setting) (slack : Float) (I : State γ → Prop) (E : Prop)
    (Fit : Text → Prop) (Scored : Found → Prop) : Prop
    extends Conduct setting slack I E Fit Scored where
  expects : ∀ (s : State γ) (n : ℕ), I s → I { s with total := n }

/-- A contract on the candidates of an evolutionary search. -/
structure Breeding [RandomSource γ] (setting : Setting) (I : State γ → Prop) (E : Prop)
    (Fit : Text → Prop) (Scored : Found → Prop) : Prop where
  seeded : ∀ x ∈ seeds setting.params,
    (fromSeed setting.params x.2.1 x.1 x.2.2 : Step γ Text).Ensures I E Fit
  templated : ∀ x ∈ templateSeeds setting.params,
    (fromTemplate setting.params x.1 x.2 : Step γ (Option Text)).Ensures I E
      fun candidate => ∀ text ∈ candidate, Fit text
  mutated : ∀ r, Scored r → (mutate setting.params r.formula : Step γ (Option Text)).Ensures I E
    fun candidate => ∀ text ∈ candidate, Fit text
  free : (randomFormula setting.params : Step γ Text).Ensures I E Fit
  results : ∀ s, I s → ∀ r ∈ s.results, Scored r

theorem seed_known {p : Params} {x : ResultType × Text × Rule} (h : x ∈ seeds p) :
    x.2.1 ∈ elementNames := by
  simp only [seeds,List.mem_flatMap,List.mem_map] at h
  obtain ⟨t,-,seed,hseed,rule,-,rfl⟩ := h
  exact List.mem_of_mem_take hseed

/-- A contract on the candidates of an exhaustive search. -/
def Combining (setting : Setting) (I : State γ → Prop) (E : Prop) (Fit : Text → Prop) : Prop :=
  ∀ x ∈ passes setting.params, ∀ names, Names setting.params.strategy.mostElements names →
    (compose setting.params x.2 x.1 names : Step γ Text).Ensures I E Fit

namespace Contract
variable {setting : Setting} {slack : Float} {I : State γ → Prop} {E : Prop} {Fit : Text → Prop}
  {Scored : Found → Prop}

/-- A contract on scores and results, for states in which nothing else matters. -/
theorem of_scores (hsame : ∀ s s' : State γ, s'.cache = s.cache → s'.seen = s.seen →
      s'.evaluations = s.evaluations → s'.results = s.results → I s → I s')
    (hfinds : ∀ (s : State γ) (found : List Found),
      (∀ r ∈ found, Scored r ∧ within setting.params r slack = true) →
        I s → I { s with results := s.results ++ found })
    (hscores : ∀ text, Fit text →
      (score setting text : Step γ (Option Found)).Ensures I E fun found => ∀ r ∈ found, Scored r) :
    Contract setting slack I E Fit Scored where
  draws s _ := hsame s _ rfl rfl rfl rfl
  asks s := hsame s _ rfl rfl rfl rfl
  reports s := hsame s _ rfl rfl rfl rfl
  counts s _ := hsame s _ rfl rfl rfl rfl
  leavesOut s _ := hsame s _ rfl rfl rfl rfl
  expects s _ := hsame s _ rfl rfl rfl rfl
  rates s _ := hsame s _ rfl rfl rfl rfl
  finds := hfinds
  scores := hscores

end Contract

/-! ## Questions, messages and counts -/

namespace Conduct
variable {setting : Setting} {slack : Float} {I : State γ → Prop} {E : Prop} {Fit : Text → Prop}
  {Scored : Found → Prop} (h : Conduct setting slack I E Fit Scored)
include h

theorem exhausted_ensures : (exhausted setting : Step γ Bool).Ensures I E fun _ => True := by
  have hasks : (asksToStop setting : Step γ Bool).Ensures I E fun _ => True :=
    fun s hs => ⟨trivial,h.asks s hs⟩
  refine hasks.bind fun stop _ => ?_
  cases stop with
  | true => exact .of_pure trivial
  | false => exact Step.Ensures.of_get.bind fun s _ => .of_pure trivial

theorem report_ensures : (report : Step γ Unit).Ensures I E fun _ => True :=
  .of_modify h.reports

theorem countProcessed_ensures (n : ℕ) :
    (countProcessed n : Step γ Unit).Ensures I E fun _ => True :=
  .of_modify fun s => h.counts s n

theorem reportIfDue_ensures : (reportIfDue setting : Step γ Unit).Ensures I E fun _ => True :=
  Step.Ensures.of_get.bind fun _ _ =>
    .ite (fun _ => h.report_ensures) fun _ => .of_pure trivial

theorem finished_ensures : (finished setting : Step γ Bool).Ensures I E fun _ => True :=
  Step.Ensures.of_get.bind fun _ _ =>
    .ite (fun _ => .of_pure trivial) fun _ => h.exhausted_ensures

theorem endIfSpent_ensures : (endIfSpent setting : Step γ Bool).Ensures I E fun _ => True :=
  Step.Ensures.of_get.bind fun _ _ =>
    .ite (fun _ => h.report_ensures.bind fun _ _ => .of_pure trivial) fun _ => .of_pure trivial

theorem keep_ensures {found : List Found}
    (hfound : ∀ r ∈ found, Scored r ∧ within setting.params r slack = true) :
    (keep found : Step γ Unit).Ensures I E fun _ => True :=
  .of_modify fun s => h.finds s found hfound

end Conduct

/-! ## Exhaustive search -/

namespace Contract
variable {I : State γ → Prop} {E : Prop}

theorem whileGoingOn_ensures {f : ℕ → Step γ Bool} {start count : ℕ}
    (hf : ∀ i, start ≤ i → i < start + count → (f i).Ensures I E fun _ => True) :
    (whileGoingOn f start count).Ensures I E fun _ => True := by
  induction count generalizing start with
  | zero => exact .of_pure trivial
  | succ count ih =>
    refine (hf start (by omega) (by omega)).bind fun _ _ => .ite ?_ fun _ => .of_pure trivial
    exact fun _ => ih fun i hi hlt => hf i (by omega) (by omega)

theorem names_namesAt {indices : List ℕ} {most : ℕ} (hne : indices ≠ [])
    (hlength : indices.length ≤ most) (hbelow : ∀ i ∈ indices, i < elementNames.length) :
    Names most (namesAt indices) := by
  refine ⟨?_,?_,fun e he => ?_⟩
  · obtain ⟨i,rest,rfl⟩ := List.exists_cons_of_ne_nil hne
    simp [namesAt,List.getElem?_eq_getElem (hbelow i (by simp))]
  · exact Nat.le_trans (List.length_filterMap_le ..) hlength
  · obtain ⟨i,-,hi⟩ := List.mem_filterMap.mp he
    exact List.mem_of_getElem? hi

theorem names_reverse {chosen : List ℕ} {most : ℕ} (hpos : 0 < chosen.length)
    (hlength : chosen.length ≤ most) (hbelow : ∀ i ∈ chosen, i < elementNames.length) :
    Names most (namesAt chosen.reverse) := by
  refine names_namesAt ?_ (by rwa [List.length_reverse]) (by simpa using hbelow)
  rwa [ne_eq,List.reverse_eq_nil_iff,← List.length_eq_zero_iff,← ne_eq,← Nat.pos_iff_ne_zero]

theorem size_bounds {s : Strategy} {k : ℕ} (h : k ∈ sizes s) : 0 < k ∧ k ≤ s.mostElements := by
  have hleast : 0 < s.leastElements := by cases s <;> decide
  obtain ⟨i,hi,rfl⟩ := List.mem_range'.mp h
  omega

end Contract

namespace Conduct
variable {setting : Setting} {I : State γ → Prop} {E : Prop} {Fit : Text → Prop}
  {Scored : Found → Prop}

section Exhaustion
variable (h : Conduct setting 1 I E Fit Scored)
include h

theorem survives_ensures (names : List Text) {candidate : Text} (hfit : Fit candidate) :
    (survives setting names candidate : Step γ Bool).Ensures I E fun _ => True := by
  refine Step.Ensures.of_get.bind fun s _ => ?_
  dsimp only
  -- the rate is remembered, or it comes from a score and is then remembered
  split
  · exact (Step.Ensures.of_pure (Q := fun _ => True) trivial).bind fun _ _ => .of_pure trivial
  · refine (h.scores candidate hfit).bind fun r _ => ?_
    refine (Step.Ensures.of_modify fun s => h.rates s _).bind fun _ _ => ?_
    exact (Step.Ensures.of_pure (Q := fun _ => True) trivial).bind fun _ _ => .of_pure trivial

variable {rule : Rule} {t : ResultType} (hpass : (t,rule) ∈ passes setting.params)
  (hc : Combining setting I E Fit)
include hpass hc

theorem prefixSurvives_ensures {names : List Text}
    (hnames : Names setting.params.strategy.mostElements names) :
    (prefixSurvives setting rule t names : Step γ Bool).Ensures I E fun _ => True :=
  (hc _ hpass names hnames).bind fun _ hfit => h.survives_ensures names hfit

theorem tryCombination_ensures {indices : List ℕ}
    (hnames : Names setting.params.strategy.mostElements (namesAt indices)) :
    (tryCombination setting rule t indices : Step γ Bool).Ensures I E fun _ => True := by
  refine h.finished_ensures.bind fun stop _ => .ite (fun _ => ?_) fun _ => ?_
  · exact h.report_ensures.bind fun _ _ => .of_pure trivial
  · refine (h.countProcessed_ensures 1).bind fun _ _ => h.reportIfDue_ensures.bind fun _ _ => ?_
    refine (hc _ hpass _ hnames).bind fun text hfit => (h.scores text hfit).bind fun r hr => ?_
    cases r with
    | none => exact .of_pure trivial
    | some r =>
      refine .ite (fun hnear => ?_) fun _ => .of_pure trivial
      have hfound : ∀ r' ∈ [r], Scored r' ∧ within setting.params r' 1 = true := by
        simpa using ⟨hr r rfl,hnear⟩
      exact (h.keep_ensures hfound).bind fun _ _ => .of_pure trivial

theorem walk_ensures {k need : ℕ} {chosen : List ℕ} {start : ℕ}
    (hk : 0 < k ∧ k ≤ setting.params.strategy.mostElements) (hneed : chosen.length + need = k)
    (hbelow : ∀ i ∈ chosen, i < elementNames.length) :
    (walk (visitor setting rule t : Visitor (Step γ)) elementNames.length k need chosen
      start).Ensures I E fun _ => True := by
  induction need generalizing chosen start with
  | zero =>
    exact h.tryCombination_ensures hpass hc
      (Contract.names_reverse (by omega) (by omega) hbelow)
  | succ need ih =>
    have hrest : (whileGoingOn (fun i => walk (visitor setting rule t) elementNames.length k need
        (i :: chosen) (i + 1)) start (elementNames.length - need - start) : Step γ Bool).Ensures
          I E fun _ => True :=
      Contract.whileGoingOn_ensures fun i hi hlt => ih (by simp only [List.length_cons]; omega)
        (List.forall_mem_cons.mpr ⟨by omega,hbelow⟩)
    rw [walk]
    refine .ite (fun hhalf => ?_) fun _ => hrest
    refine h.exhausted_ensures.bind fun _ _ => .ite (fun _ => ?_) fun _ => ?_
    · exact h.endIfSpent_ensures.bind fun _ _ => .of_pure trivial
    · have hpos : 0 < chosen.length := by
        rw [hhalf.2,prefixLength]
        omega
      have hnames : Names setting.params.strategy.mostElements (namesAt chosen.reverse) :=
        Contract.names_reverse hpos (by omega) hbelow
      refine (h.prefixSurvives_ensures hpass hc hnames).bind fun _ _ => .ite (fun _ => ?_) ?_
      · exact (Step.Ensures.of_modify fun s => h.leavesOut s _).bind fun _ _ => .of_pure trivial
      · exact fun _ => hrest

theorem trySizes_ensures {ks : List ℕ} (hks : ∀ k ∈ ks, k ∈ sizes setting.params.strategy) :
    (trySizes setting rule t ks : Step γ Bool).Ensures I E fun _ => True := by
  induction ks with
  | nil => exact .of_pure trivial
  | cons k rest ih =>
    obtain ⟨hk,hrest⟩ := List.forall_mem_cons.mp hks
    refine h.finished_ensures.bind fun stop _ => .ite (fun _ => ?_) fun _ => ?_
    · exact h.report_ensures.bind fun _ _ => .of_pure trivial
    · have hbounds := Contract.size_bounds hk
      refine (h.walk_ensures hpass hc hbounds (by simp) (by simp)).bind fun _ _ => ?_
      exact .ite (fun _ => ih hrest) fun _ => .of_pure trivial

omit hpass in
theorem tryPasses_ensures {ps : List (ResultType × Rule)}
    (hps : ∀ x ∈ ps, x ∈ passes setting.params) :
    (tryPasses setting ps : Step γ Bool).Ensures I E fun _ => True := by
  induction ps with
  | nil => exact .of_pure trivial
  | cons x rest ih =>
    obtain ⟨hx,hrest⟩ := List.forall_mem_cons.mp hps
    refine (Step.Ensures.of_modify fun s => h.rates s ∅).bind fun _ _ => ?_
    refine (h.trySizes_ensures hx hc fun _ hk => hk).bind fun _ _ => ?_
    exact .ite (fun _ => ih hrest) fun _ => .of_pure trivial

omit hpass in
/-- An exhaustive search from the moment on at which it knows what to expect. -/
theorem exhaust_expecting {s : State γ} (hs : I { s with
      total := combinationsPerPass setting.params.strategy * (passes setting.params).length }) :
    Meets E (fun _ => True) ((exhaust setting).runFrom s).1 ∧
      I ((exhaust setting).runFrom s).2 := by
  rw [exhaust,runFrom_modify_bind]
  refine (h.tryPasses_ensures hc fun _ hx => hx).bind (fun goOn _ => ?_) _ hs
  exact Step.Ensures.ite (Q := fun _ => True) (fun _ => h.report_ensures) fun _ => .of_pure trivial

end Exhaustion

/-! ## Evolutionary search -/

section Evolution
variable [RandomSource γ] (h : Conduct setting 2 I E Fit Scored)
  (hb : Breeding setting I E Fit Scored)
include h

omit [RandomSource γ] in
theorem consider_ensures {candidate : Option Text} (hfit : ∀ text ∈ candidate, Fit text)
    {narrow : Float} (hslack : ∀ r, within setting.params r narrow = true →
      within setting.params r 2 = true) :
    (consider setting candidate narrow : Step γ (List Found)).Ensures I E
      fun found => ∀ r ∈ found, Scored r ∧ within setting.params r 2 = true := by
  refine (h.countProcessed_ensures 1).bind fun _ _ => ?_
  cases candidate with
  | none => exact .of_pure (by simp)
  | some text =>
    refine (h.scores text (hfit text rfl)).bind fun r hr => ?_
    cases r with
    | none => exact .of_pure (by simp)
    | some r =>
      apply Step.Ensures.of_pure
      split
      · next hnear => simpa using ⟨hr r rfl,hslack r hnear⟩
      · simp

include hb

theorem considerSeeds_ensures {xs : List (ResultType × Text × Rule)}
    (hxs : ∀ x ∈ xs, x ∈ seeds setting.params) :
    (considerSeeds setting xs : Step γ Unit).Ensures I E fun _ => True := by
  induction xs with
  | nil => exact .of_pure trivial
  | cons x rest ih =>
    obtain ⟨hx,hrest⟩ := List.forall_mem_cons.mp hxs
    refine (hb.seeded x hx).bind fun text hfit => ?_
    refine (h.consider_ensures (by simpa using hfit) fun _ hr => hr).bind fun found hfound => ?_
    exact (h.keep_ensures hfound).bind fun _ _ => ih hrest

theorem considerTemplates_ensures {xs : List (ResultType × Rule)}
    (hxs : ∀ x ∈ xs, x ∈ templateSeeds setting.params) :
    (considerTemplates setting xs : Step γ Unit).Ensures I E fun _ => True := by
  induction xs with
  | nil => exact .of_pure trivial
  | cons x rest ih =>
    obtain ⟨hx,hrest⟩ := List.forall_mem_cons.mp hxs
    refine (hb.templated x hx).bind fun candidate hfit => ?_
    refine (h.consider_ensures hfit fun _ => within_two).bind fun found hfound => ?_
    exact (h.keep_ensures hfound).bind fun _ _ => ih hrest

theorem considerMutations_ensures {texts : List Text} {fresh : List Found}
    (htexts : ∀ text ∈ texts, ∃ r, Scored r ∧ r.formula = text)
    (hfresh : ∀ r ∈ fresh, Scored r ∧ within setting.params r 2 = true) :
    (considerMutations setting texts fresh : Step γ (List Found)).Ensures I E
      fun found => ∀ r ∈ found, Scored r ∧ within setting.params r 2 = true := by
  induction texts generalizing fresh with
  | nil => exact .of_pure hfresh
  | cons text rest ih =>
    obtain ⟨⟨r,hr,rfl⟩,hrest⟩ := List.forall_mem_cons.mp htexts
    refine (hb.mutated r hr).bind fun candidate hfit => ?_
    refine (h.consider_ensures hfit fun _ => within_two).bind fun found hfound => ?_
    refine h.reportIfDue_ensures.bind fun _ _ => ?_
    exact ih hrest (List.forall_mem_append.mpr ⟨hfresh,hfound⟩)

theorem considerFree_ensures {count : ℕ} {fresh : List Found}
    (hfresh : ∀ r ∈ fresh, Scored r ∧ within setting.params r 2 = true) :
    (considerFree setting count fresh : Step γ (List Found)).Ensures I E
      fun found => ∀ r ∈ found, Scored r ∧ within setting.params r 2 = true := by
  induction count generalizing fresh with
  | zero => exact .of_pure hfresh
  | succ count ih =>
    refine hb.free.bind fun text hfit => ?_
    refine (h.consider_ensures (by simpa using hfit) fun _ => within_two).bind ?_
    exact fun found hfound => ih (List.forall_mem_append.mpr ⟨hfresh,hfound⟩)

theorem generation_ensures : (generation setting : Step γ Bool).Ensures I E fun _ => True := by
  refine Step.Ensures.of_get.bind fun s hs => ?_
  have hparents : ∀ text ∈ (elite setting.params s.results).flatMap fun r =>
      List.replicate mutationsPerElite r.formula, ∃ r, Scored r ∧ r.formula = text := by
    intro text htext
    obtain ⟨r,hr,hcopy⟩ := List.mem_flatMap.mp htext
    have hmem := List.mem_mergeSort.mp (List.mem_of_mem_take hr)
    exact ⟨r,hb.results s hs r hmem,(List.eq_of_mem_replicate hcopy).symm⟩
  refine (h.considerMutations_ensures hb hparents (by simp)).bind fun fresh hfresh => ?_
  refine (h.considerFree_ensures hb hfresh).bind fun found hfound => ?_
  refine (h.keep_ensures hfound).bind fun _ _ => h.report_ensures.bind fun _ _ => ?_
  exact Step.Ensures.of_get.bind fun _ _ => .of_pure trivial

theorem generations_ensures (count : ℕ) :
    (generations setting count : Step γ Unit).Ensures I E fun _ => True := by
  induction count with
  | zero => exact .of_pure trivial
  | succ count ih =>
    refine h.exhausted_ensures.bind fun _ _ => .ite (fun _ => .of_pure trivial) fun _ => ?_
    refine (h.generation_ensures hb).bind fun _ _ => ?_
    exact .ite (fun _ => .of_pure trivial) fun _ => ih

/-- An evolutionary search from the moment on at which it knows what to expect. -/
theorem evolve_expecting {s : State γ} (hs : I { s with
      total := setting.params.strategy.population * setting.params.strategy.generations }) :
    Meets E (fun _ => True) ((evolve setting).runFrom s).1 ∧ I ((evolve setting).runFrom s).2 := by
  rw [evolve,runFrom_modify_bind]
  refine (h.considerSeeds_ensures hb fun _ hx => hx).bind (fun _ _ => ?_) _ hs
  refine (h.considerTemplates_ensures hb fun _ hx => hx).bind fun _ _ => ?_
  exact h.generations_ensures hb _

end Evolution

end Conduct

/-! ## Whole searches -/

namespace Contract
variable {setting : Setting} {I : State γ → Prop} {E : Prop} {Fit : Text → Prop}
  {Scored : Found → Prop}

theorem exhaust_ensures (h : Contract setting 1 I E Fit Scored) (hc : Combining setting I E Fit) :
    (exhaust setting : Step γ Unit).Ensures I E fun _ => True :=
  fun s hs => h.exhaust_expecting hc (h.expects s _ hs)

theorem evolve_ensures [RandomSource γ] (h : Contract setting 2 I E Fit Scored)
    (hb : Breeding setting I E Fit Scored) :
    (evolve setting : Step γ Unit).Ensures I E fun _ => True :=
  fun s hs => h.evolve_expecting hb (h.expects s _ hs)

end Contract

/-! ## Searches whose candidates do not matter -/

section Exploration
variable {setting : Setting} {I : State γ → Prop}

theorem combining_of_any : Combining setting I True fun _ => True :=
  fun x _ names _ => (compose_ensures (fun _ => trivial) x.2 x.1 names).mono fun _ _ => trivial

variable [RandomSource γ]

theorem explore_of_deep (h : setting.params.strategy = .deep) :
    (explore setting : Step γ Unit) = exhaust setting := by
  rw [explore,h]

theorem explore_of_ne_deep (h : setting.params.strategy ≠ .deep) :
    (explore setting : Step γ Unit) = evolve setting := by
  unfold explore
  split
  · next hdeep => exact absurd hdeep h
  · rfl

theorem breeding_of_draws
    (hdraws : ∀ (s : State γ) (random : γ), I s → I { s with random := random }) :
    Breeding setting I True (fun _ => True) fun _ => True where
  seeded _ hx := (fromSeed_ensures hdraws (fun _ => trivial) (seed_known hx) _ _).mono
    fun _ _ => trivial
  templated _ _ := (fromTemplate_ensures hdraws (fun _ => trivial) _ _).mono fun _ _ _ _ => trivial
  mutated _ _ := mutate_ensures hdraws (fun _ => trivial) (fun _ _ => trivial)
    (fun _ _ _ _ => trivial) fun _ _ _ _ => trivial
  free := (randomFormula_ensures hdraws fun _ => trivial).mono fun _ _ => trivial
  results _ _ _ _ := trivial

/-- A search, whatever its strategy, stays in a class of states in which each primitive step does,
if it does not depend on what is expected at first. -/
theorem Conduct.explored (h : ∀ slack, Conduct setting slack I True (fun _ => True) fun _ => True)
    {s : State γ} (hs : ∀ n, I { s with total := n }) : I ((explore setting).runFrom s).2 := by
  unfold explore
  split
  · exact ((h 1).exhaust_expecting combining_of_any (hs _)).2
  · exact ((h 2).evolve_expecting (breeding_of_draws (h 2).draws) (hs _)).2

theorem Contract.explored (h : ∀ slack, Contract setting slack I True (fun _ => True) fun _ => True)
    {s : State γ} (hs : I s) : I ((explore setting).runFrom s).2 :=
  Conduct.explored (fun slack => (h slack).toConduct) fun n => (h 0).expects s n hs

end Exploration

end DrawFormula.Search
