import DrawFormula.Proofs.Search.Moments

/-! # What a search spends

A score costs at most one evaluation and nothing else costs any. An exhaustive search asks before
each score whether the budget lasts, so that it never exceeds it. An evolutionary search asks before
each generation only: it spends no more than its seeding phase, or one generation beyond the budget.
-/
namespace DrawFormula.Search
variable {γ α β : Type} {setting : Setting}

/-! ## Costs -/

theorem evaluations_score (setting : Setting) (text : Text) (s : State γ) :
    s.evaluations ≤ ((score setting text).runFrom s).2.evaluations ∧
      ((score setting text).runFrom s).2.evaluations ≤ s.evaluations + 1 := by
  rw [runFrom_score]
  split
  · exact ⟨le_rfl,Nat.le_succ _⟩
  · rcases Formula.readLine text 0 with (_ | _) | line
    · exact ⟨le_rfl,Nat.le_succ _⟩
    · exact ⟨le_rfl,Nat.le_succ _⟩
    · exact ⟨Nat.le_succ _,le_rfl⟩

/-- Whether a step costs at most so many evaluations. -/
def Step.Costs (n : ℕ) (x : Step γ α) : Prop :=
  ∀ s, (x.runFrom s).2.evaluations ≤ s.evaluations + n

namespace Step.Costs
variable {m n : ℕ} {x y : Step γ α}

theorem of_pure (a : α) : Step.Costs n (pure a : Step γ α) :=
  fun s => Nat.le_add_right s.evaluations n

theorem of_modify {f : State γ → State γ} (h : ∀ s, (f s).evaluations = s.evaluations) :
    Step.Costs n (modify f : Step γ PUnit) := by
  intro s
  exact (h s).le.trans (Nat.le_add_right _ n)

/-- A step that never raises the number of evaluations costs nothing. -/
theorem of_ensures {Q : α → Prop}
    (h : ∀ n, x.Ensures (fun s => s.evaluations ≤ n) True Q) : x.Costs 0 :=
  fun s => (h s.evaluations s le_rfl).2

theorem bind {f : α → Step γ β} (hx : x.Costs m) (hf : ∀ a, (f a).Costs n) :
    Step.Costs (n + m) (x >>= f) := by
  intro s
  have hfirst := hx s
  rcases hrun : x.runFrom s with ⟨e | a,s'⟩
  · rw [hrun] at hfirst
    rw [runFrom_bind_of_error hrun]
    exact hfirst.trans (by omega)
  · rw [hrun] at hfirst
    have hrest := hf a s'
    rw [runFrom_bind_of_ok hrun]
    simp only at hfirst
    omega

theorem bind_free {f : α → Step γ β} (hx : x.Costs m) (hf : ∀ a, (f a).Costs 0) :
    Step.Costs m (x >>= f) := by
  rw [← Nat.zero_add m]
  exact hx.bind hf

theorem get_bind {f : State γ → Step γ α} (hf : ∀ s, (f s).Costs n) :
    Step.Costs n (get >>= f) := fun s => hf s s

theorem ite {p : Prop} {_ : Decidable p} (hx : x.Costs n) (hy : y.Costs n) :
    Step.Costs n (if p then x else y) := by
  split
  · exact hx
  · exact hy

end Step.Costs

theorem costs_score (text : Text) : (score setting text : Step γ (Option Found)).Costs 1 :=
  fun s => (evaluations_score setting text s).2

theorem costs_keep (found : List Found) : (keep found : Step γ Unit).Costs 0 :=
  .of_modify fun _ => rfl

theorem costs_report : (report : Step γ Unit).Costs 0 := .of_modify fun _ => rfl

theorem costs_reportIfDue : (reportIfDue setting : Step γ Unit).Costs 0 :=
  .get_bind fun _ => .ite costs_report (.of_pure ())

theorem costs_consider (candidate : Option Text) (slack : Float) :
    (consider setting candidate slack : Step γ (List Found)).Costs 1 := by
  refine Step.Costs.bind (m := 0) (.of_modify fun _ => rfl) fun _ => ?_
  cases candidate with
  | none => exact .of_pure []
  | some text =>
    refine (costs_score text).bind_free fun found => ?_
    cases found with
    | none => exact .of_pure []
    | some r => exact .of_pure _

/-! ## Seeding -/

section Evolution
variable [RandomSource γ]

theorem costs_considerSeeds {xs : List (ResultType × Text × Rule)}
    (hxs : ∀ x ∈ xs, x.2.1 ∈ elementNames) :
    (considerSeeds setting xs : Step γ Unit).Costs xs.length := by
  induction xs with
  | nil => exact .of_pure ()
  | cons x rest ih =>
    obtain ⟨hseed,hrest⟩ := List.forall_mem_cons.mp hxs
    have hdrawn : (fromSeed setting.params x.2.1 x.1 x.2.2 : Step γ Text).Costs 0 :=
      .of_ensures fun n => fromSeed_ensures (fun _ _ hs => hs) (fun _ => trivial) hseed x.1 x.2.2
    exact hdrawn.bind fun text => (costs_consider (some text) 2).bind fun found =>
      (costs_keep found).bind fun _ => ih hrest

theorem costs_considerTemplates (xs : List (ResultType × Rule)) :
    (considerTemplates setting xs : Step γ Unit).Costs xs.length := by
  induction xs with
  | nil => exact .of_pure ()
  | cons x rest ih =>
    have hdrawn : (fromTemplate setting.params x.1 x.2 : Step γ (Option Text)).Costs 0 :=
      .of_ensures fun n => fromTemplate_ensures (fun _ _ hs => hs) (fun _ => trivial) x.1 x.2
    exact hdrawn.bind fun candidate => (costs_consider candidate 1).bind fun found =>
      (costs_keep found).bind fun _ => ih

/-- The phase of an evolutionary search before its generations. -/
def seeding (setting : Setting) : Step γ Unit := do
  let strategy := setting.params.strategy
  modify fun s => { s with total := strategy.population * strategy.generations }
  considerSeeds setting (seeds setting.params)
  considerTemplates setting (templateSeeds setting.params)

theorem evolve_eq (setting : Setting) : (evolve setting : Step γ Unit) =
    (do seeding setting; generations setting setting.params.strategy.generations) := by
  simp only [evolve,seeding,bind_assoc]

omit [RandomSource γ] in
theorem length_seeds (p : Params) :
    (seeds p).length + (templateSeeds p).length = 8 * p.resultTypes.length := by
  have hseeds : min seedsPerType elementNames.length = 3 := by decide
  have hrules : Rule.all.length = 2 := rfl
  simp [seeds,templateSeeds,hseeds,hrules]
  omega

/-- The seeding phase costs eight evaluations for each result type. -/
theorem costs_seeding (setting : Setting) :
    (seeding setting : Step γ Unit).Costs (8 * setting.params.resultTypes.length) := by
  rw [← length_seeds,Nat.add_comm]
  refine Step.Costs.bind (m := 0) (.of_modify fun _ => rfl) fun _ => ?_
  exact (costs_considerSeeds fun x hx => seed_known hx).bind fun _ => costs_considerTemplates _

/-! ## Generations -/

theorem costs_considerMutations (texts : List Text) (fresh : List Found) :
    (considerMutations setting texts fresh : Step γ (List Found)).Costs texts.length := by
  induction texts generalizing fresh with
  | nil => exact .of_pure fresh
  | cons text rest ih =>
    have hdrawn : (mutate setting.params text : Step γ (Option Text)).Costs 0 :=
      .of_ensures fun n => mutate_ensures (fun _ _ hs => hs) (fun _ => trivial)
        (fun _ _ => trivial) (Q := fun _ => True) (fun _ _ _ _ => trivial) fun _ _ _ _ => trivial
    exact hdrawn.bind fun candidate => (costs_consider candidate 1).bind fun found =>
      costs_reportIfDue.bind fun _ => ih (fresh ++ found)

theorem costs_considerFree (count : ℕ) (fresh : List Found) :
    (considerFree setting count fresh : Step γ (List Found)).Costs count := by
  induction count generalizing fresh with
  | zero => exact .of_pure fresh
  | succ count ih =>
    have hdrawn : (randomFormula setting.params : Step γ Text).Costs 0 :=
      .of_ensures fun n => randomFormula_ensures (fun _ _ hs => hs) fun _ => trivial
    exact hdrawn.bind fun text => (costs_consider (some text) 1).bind fun found =>
      ih (fresh ++ found)

omit [RandomSource γ] in
theorem length_parents_le (p : Params) (results : List Found) :
    ((elite p results).flatMap fun r =>
      List.replicate mutationsPerElite r.formula).length ≤ 60 := by
  have helite : (elite p results).length ≤ 20 := List.length_take_le ..
  simp [mutationsPerElite]
  omega

/-- A generation costs an evaluation for each mutation of one of the best and for each free
candidate. -/
theorem costs_generation (setting : Setting) : (generation setting : Step γ Bool).Costs
    (setting.params.strategy.population / 2 + 60) := by
  refine .get_bind fun s => ?_
  have hmutations : (considerMutations setting ((elite setting.params s.results).flatMap
      fun r => List.replicate mutationsPerElite r.formula) [] : Step γ (List Found)).Costs 60 :=
    fun s' => (costs_considerMutations _ [] s').trans
      (Nat.add_le_add_left (length_parents_le setting.params s.results) _)
  refine hmutations.bind fun fresh => ?_
  refine (costs_considerFree _ fresh).bind_free fun found => ?_
  exact (costs_keep found).bind fun _ => costs_report.bind fun _ => .get_bind fun _ => .of_pure _

section Budgets
variable {m : ℕ} (hm : 0 < m) (hlimit : setting.evaluationLimit = m)
include hm hlimit

omit [RandomSource γ] in
theorem evaluations_lt {s : State γ} (h : isSpent setting s = false) : s.evaluations < m := by
  simp only [isSpent,limitReached,hlimit,Bool.or_eq_false_iff,Bool.and_eq_false_iff,
    decide_eq_false_iff_not] at h
  omega

theorem evaluations_generations (count : ℕ) (s : State γ) :
    ((generations setting count).runFrom s).2.evaluations ≤
      max s.evaluations (m + 59 + setting.params.strategy.population / 2) := by
  induction count generalizing s with
  | zero => exact le_max_left ..
  | succ count ih =>
    rw [generations,runFrom_bind_of_ok (runFrom_exhausted setting s)]
    split
    · exact le_max_left ..
    · next hgoOn =>
      -- there is an evaluation left before the generation
      rw [Bool.not_eq_true,Bool.or_eq_false_iff] at hgoOn
      have hlasts := evaluations_lt hm hlimit hgoOn.2
      let asked : State γ := { s with asked := s.asked + 1 }
      have hcost : _ ≤ s.evaluations + _ := costs_generation setting asked
      rcases hrun : (generation setting).runFrom asked with ⟨e | enough,s'⟩
      · rw [hrun] at hcost
        rw [runFrom_bind_of_error hrun]
        simp only at hcost ⊢
        omega
      · rw [hrun] at hcost
        rw [runFrom_bind_of_ok hrun]
        simp only at hcost
        cases enough with
        | true =>
          change s'.evaluations ≤ _
          omega
        | false =>
          have hrest := ih s'
          change ((generations setting count).runFrom s').2.evaluations ≤ _
          omega

/-- An evolutionary search spends its seeding phase, or at most one generation beyond the budget. -/
theorem evaluations_evolve (s : State γ) : ((evolve setting).runFrom s).2.evaluations ≤
    max (s.evaluations + 8 * setting.params.resultTypes.length)
      (m + 59 + setting.params.strategy.population / 2) := by
  have hseeding := costs_seeding setting s
  rw [evolve_eq]
  rcases hrun : (seeding setting).runFrom s with ⟨e | _,s'⟩
  · rw [hrun] at hseeding
    rw [runFrom_bind_of_error hrun]
    exact hseeding.trans (le_max_left ..)
  · rw [hrun] at hseeding
    rw [runFrom_bind_of_ok hrun]
    have hrest := evaluations_generations hm hlimit setting.params.strategy.generations s'
    simp only at hseeding
    omega

/-! ## Budgets -/

omit [RandomSource γ] in
/-- In an exhaustive search there is an evaluation left before each score, and room before each
formula that is found. -/
theorem pace_of_budget : Pace setting fun _ (s : State γ) =>
    s.evaluations ≤ m ∧ s.results.length ≤ setting.params.maxCount where
  asks _ _ hs := hs
  reports _ _ hs := hs
  counts _ _ hs := hs
  leavesOut _ _ _ hs := hs
  rates _ _ _ hs := hs
  finds := by
    rintro _ s r hroom ⟨hevaluations,-⟩
    exact ⟨hevaluations,by simpa [Nat.succ_le_iff] using hroom⟩
  scores := by
    rintro _ s text hlasts ⟨-,hresults⟩
    have hleft := evaluations_lt hm hlimit hlasts
    have hcost := (evaluations_score setting text s).2
    obtain ⟨seen,evaluations,cache,hafter⟩ := after_score setting text s
    rw [hafter] at hcost ⊢
    exact ⟨by omega,hresults⟩
  abandons _ _ _ _ hs := hs

end Budgets

/-- A search that is told to stop right after its seeding phase goes through no generation. -/
theorem evolve_stopped (hgenerations : 0 < setting.params.strategy.generations) {s : State γ}
    (hstop : setting.stop ((seeding setting).runFrom s).2.asked = true) :
    (evolve setting).runFrom s =
      Step.runFrom (do seeding setting; let _ ← asksToStop setting) s := by
  obtain ⟨count,hcount⟩ := Nat.exists_eq_add_of_lt hgenerations
  rw [evolve_eq,hcount]
  rcases hrun : (seeding setting).runFrom s with ⟨e | _,s'⟩
  · rw [runFrom_bind_of_error hrun,runFrom_bind_of_error hrun]
  · rw [hrun] at hstop
    rw [runFrom_bind_of_ok hrun,runFrom_bind_of_ok hrun,generations,
      runFrom_bind_of_ok (runFrom_exhausted setting s'),hstop]
    rfl

/-- With a budget of evaluations an exhaustive search at no moment has spent more, or found more
than it was asked for. Another search spends the budget and one generation more at most, unless its
seeding phase alone spends more; no generation follows if it is told to stop from there on. -/
theorem explore_withinBudget (setting : Setting) {m : ℕ} (hm : 0 < m)
    (hlimit : setting.evaluationLimit = m) (random : γ) (cacheSize : ℕ) :
    let s := State.initial random cacheSize
    (setting.params.strategy = .deep →
      (explore setting).Stays setting (fun s => s.evaluations ≤ m ∧
        s.results.length ≤ setting.params.maxCount) s ∧
      (run setting s).2.evaluations ≤ m ∧
        (run setting s).2.results.length ≤ setting.params.maxCount) ∧
    (setting.params.strategy ≠ .deep →
      (run setting s).2.evaluations ≤ max (8 * setting.params.resultTypes.length)
        (m + 59 + setting.params.strategy.population / 2) ∧
      ((∀ n, ((seeding setting).runFrom s).2.asked ≤ n → setting.stop n = true) →
        (explore setting).runFrom s =
          Step.runFrom (do seeding setting; let _ ← asksToStop setting) s)) := by
  intro s
  have hinitial : s.evaluations ≤ m ∧ s.results.length ≤ setting.params.maxCount :=
    ⟨Nat.zero_le _,Nat.zero_le _⟩
  refine ⟨fun hdeep => ?_,fun hstrategy => ⟨?_,fun hstop => ?_⟩⟩
  · have hstays : (explore setting).Stays setting (fun s => s.evaluations ≤ m ∧
        s.results.length ≤ setting.params.maxCount) s := by
      rw [explore_of_deep hdeep]
      have hleads := (pace_of_budget hm hlimit).exhaust_leads ⟨0,hinitial⟩ hinitial
      exact hleads.1.mono fun _ ⟨_,hwithin⟩ => hwithin
    refine ⟨hstays,?_⟩
    rw [after_run]
    split
    · exact hinitial
    · exact hstays.after
  · rw [after_run,explore_of_ne_deep hstrategy]
    split
    · exact Nat.zero_le _
    · have hspent := evaluations_evolve hm hlimit s
      rwa [show s.evaluations = 0 from rfl,Nat.zero_add] at hspent
  · rw [explore_of_ne_deep hstrategy]
    refine evolve_stopped ?_ (hstop _ le_rfl)
    cases hs : setting.params.strategy with
    | fast => decide
    | standard => decide
    | deep => exact absurd hs hstrategy

theorem explore_withinOne :
    let setting := overTwo [Backtest.lowDraw 2 9 (by decide),Backtest.lowDraw 1 7 (by decide)]
    let deep := { setting with
      params := .make 50 1 .deep [.tail] 0 2 0 0 none none none, evaluationLimit := 1 }
    let fast := { setting with evaluationLimit := 1, stop := fun _ => true }
    let random := Twister.ofTexts ["search".toList,['0']]
    (0 < 1 ∧ deep.evaluationLimit = 1 ∧ deep.params.strategy = .deep ∧
      (run deep (.initial random 1)).2.evaluations ≤ 1 ∧
        (run deep (.initial random 1)).2.results.length ≤ 1) ∧
    (fast.evaluationLimit = 1 ∧ fast.params.strategy ≠ .deep ∧
      (run fast (.initial random 1)).2.evaluations ≤ 135 ∧
      (explore fast).runFrom (.initial random 1) =
        Step.runFrom (do seeding fast; let _ ← asksToStop fast) (.initial random 1)) := by
  intro setting deep fast random
  have hdeep := (explore_withinBudget deep (m := 1) Nat.one_pos rfl random 1).1 rfl
  have hfast := (explore_withinBudget fast (m := 1) Nat.one_pos rfl random 1).2 nofun
  have hmost : max (8 * fast.params.resultTypes.length)
      (1 + 59 + fast.params.strategy.population / 2) = 135 := by decide
  rw [hmost] at hfast
  exact ⟨⟨Nat.one_pos,rfl,rfl,hdeep.2.1,hdeep.2.2⟩,rfl,nofun,hfast.1,hfast.2 fun _ _ => rfl⟩

end Evolution

end DrawFormula.Search
