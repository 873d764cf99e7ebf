import DrawFormula.Proofs.Search.Growth

/-! # Budgets of evaluations

Two searches that differ in their budgets do the same until the smaller budget is used up. From then
on the search with the smaller budget finds nothing more, on whichever way it comes to its end,
while the other one goes on and takes back nothing.
-/
namespace DrawFormula.Search
variable {γ α β : Type}

/-- The setting with another limit on the evaluations. -/
def Setting.limited (setting : Setting) (limit : ℤ) : Setting :=
  { setting with evaluationLimit := limit }

section Limits
variable (setting : Setting) (limit : ℤ)

@[simp] theorem Setting.params_limited : (setting.limited limit).params = setting.params := rfl

@[simp] theorem score_limited (text : Text) :
    (score (setting.limited limit) text : Step γ (Option Found)) = score setting text := by
  simp only [score,Setting.anchor,Setting.limited]

@[simp] theorem reportIfDue_limited :
    (reportIfDue (setting.limited limit) : Step γ Unit) = reportIfDue setting := rfl

@[simp] theorem prefixSurvives_limited (rule : Rule) (t : ResultType) (names : List Text) :
    (prefixSurvives (setting.limited limit) rule t names : Step γ Bool) =
      prefixSurvives setting rule t names := by
  simp only [prefixSurvives,survives,score_limited,Setting.params_limited]

@[simp] theorem goInto_visitor (rule : Rule) (t : ResultType) (indices : List ℕ) :
    (visitor setting rule t : Visitor (Step γ)).goInto indices =
      prefixSurvives setting rule t (namesAt indices) := rfl

@[simp] theorem leaveOut_visitor (rule : Rule) (t : ResultType) :
    (visitor setting rule t : Visitor (Step γ)).leaveOut = leaveOut := rfl

theorem consider_limited (candidate : Option Text) (slack : Float) :
    (consider (setting.limited limit) candidate slack : Step γ (List Found)) =
      consider setting candidate slack := by
  simp only [consider,score_limited]
  rfl

variable [RandomSource γ]

theorem considerSeeds_limited (xs : List (ResultType × Text × Rule)) :
    (considerSeeds (setting.limited limit) xs : Step γ Unit) = considerSeeds setting xs := by
  induction xs with
  | nil => rfl
  | cons x rest ih => simp only [considerSeeds,consider_limited,ih,Setting.params_limited]

theorem considerTemplates_limited (xs : List (ResultType × Rule)) :
    (considerTemplates (setting.limited limit) xs : Step γ Unit) =
      considerTemplates setting xs := by
  induction xs with
  | nil => rfl
  | cons x rest ih => simp only [considerTemplates,consider_limited,ih,Setting.params_limited]

theorem considerMutations_limited (texts : List Text) (fresh : List Found) :
    (considerMutations (setting.limited limit) texts fresh : Step γ (List Found)) =
      considerMutations setting texts fresh := by
  induction texts generalizing fresh with
  | nil => rfl
  | cons text rest ih =>
    simp only [considerMutations,consider_limited,ih,reportIfDue_limited,Setting.params_limited]

theorem considerFree_limited (count : ℕ) (fresh : List Found) :
    (considerFree (setting.limited limit) count fresh : Step γ (List Found)) =
      considerFree setting count fresh := by
  induction count generalizing fresh with
  | zero => rfl
  | succ count ih => simp only [considerFree,consider_limited,ih,Setting.params_limited]

theorem generation_limited :
    (generation (setting.limited limit) : Step γ Bool) = generation setting := by
  simp only [generation,considerMutations_limited,considerFree_limited]
  rfl

end Limits

/-! ## A budget that is used up -/

/-- Whether a step found nothing and tested nothing. -/
structure Rests (s s' : State γ) : Prop where
  results : s'.results = s.results
  evaluations : s'.evaluations = s.evaluations

theorem Rests.refl (s : State γ) : Rests s s := ⟨rfl,rfl⟩

theorem Rests.trans {s s' s'' : State γ} (h : Rests s s') (h' : Rests s' s'') : Rests s s'' :=
  ⟨h'.results.trans h.results,h'.evaluations.trans h.evaluations⟩

theorem Rests.isSpent_eq {setting : Setting} {s s' : State γ} (h : Rests s s') :
    isSpent setting s' = isSpent setting s := by
  unfold isSpent limitReached
  rw [h.evaluations]

/-- Whether a step does nothing more once the budget is used up. -/
def Step.Idle (setting : Setting) (x : Step γ α) : Prop :=
  ∀ s, isSpent setting s = true → x.Yields s fun _ s' => Rests s s'

/-- Whether a question is to end the search once the budget is used up. -/
def Step.Ends (setting : Setting) (x : Step γ Bool) : Prop :=
  ∀ s, isSpent setting s = true → x.Yields s fun stop s' => stop = true ∧ Rests s s'

section Idling
variable {setting : Setting} {x : Step γ α}

theorem idle_pure (a : α) : (pure a : Step γ α).Idle setting := fun s _ => .of_pure (.refl s)

theorem idle_modify {f : State γ → State γ} (h : ∀ s, Rests s (f s)) :
    (modify f : Step γ PUnit).Idle setting :=
  fun s _ => .of_modify (h s)

theorem idle_report : (report : Step γ Unit).Idle setting := idle_modify fun _ => ⟨rfl,rfl⟩

theorem idle_forgetRates :
    (modify fun s => { s with rates := ∅ } : Step γ PUnit).Idle setting :=
  idle_modify fun _ => ⟨rfl,rfl⟩

theorem Step.Idle.bind {f : α → Step γ β} (hx : x.Idle setting) (hf : ∀ a, (f a).Idle setting) :
    Step.Idle setting (x >>= f) := by
  intro s hs
  refine (hx s hs).bind fun a s' hrests => ?_
  exact (hf a s' (by rwa [hrests.isSpent_eq])).mono fun _ _ hlater => hrests.trans hlater

theorem Step.Ends.bind {x : Step γ Bool} {f : Bool → Step γ β} (hx : x.Ends setting)
    (hf : (f true).Idle setting) : Step.Idle setting (x >>= f) := by
  intro s hs
  refine (hx s hs).bind ?_
  rintro _ s' ⟨rfl,hrests⟩
  exact (hf s' (by rwa [hrests.isSpent_eq])).mono fun _ _ hlater => hrests.trans hlater

theorem Step.Idle.ite {p : Prop} {_ : Decidable p} {y : Step γ α} (hx : x.Idle setting)
    (hy : y.Idle setting) : Step.Idle setting (if p then x else y) := by
  split
  · exact hx
  · exact hy

theorem finished_of_full (setting : Setting) {s : State γ}
    (h : setting.params.maxCount ≤ s.results.length) :
    (finished setting).runFrom s = (.ok true,s) := by
  rw [finished,runFrom_get_bind,if_pos h]
  rfl

theorem finished_of_room (setting : Setting) {s : State γ}
    (h : ¬ setting.params.maxCount ≤ s.results.length) :
    (finished setting).runFrom s = (exhausted setting).runFrom s := by
  rw [finished,runFrom_get_bind,if_neg h]

theorem exhausted_ends : (exhausted setting : Step γ Bool).Ends setting := by
  intro s hs
  refine ⟨_,_,runFrom_exhausted setting s,?_,rfl,rfl⟩
  rw [hs,Bool.or_true]

theorem finished_ends : (finished setting : Step γ Bool).Ends setting := by
  intro s hs
  by_cases hfull : setting.params.maxCount ≤ s.results.length
  · exact ⟨true,s,finished_of_full setting hfull,rfl,.refl s⟩
  · obtain ⟨stop,s',hrun,hstop⟩ := exhausted_ends s hs
    exact ⟨stop,s',(finished_of_room setting hfull).trans hrun,hstop⟩

theorem idle_get_bind {f : State γ → Step γ α} (hf : ∀ s, (f s).Idle setting) :
    Step.Idle setting (get >>= f) := by
  intro s hs
  obtain ⟨a,s',hrun,hrests⟩ := hf s s hs
  exact ⟨a,s',by rw [runFrom_get_bind,hrun],hrests⟩

theorem idle_endIfSpent : (endIfSpent setting : Step γ Bool).Idle setting :=
  idle_get_bind fun _ => .ite (idle_report.bind fun _ => idle_pure true) (idle_pure false)

theorem idle_whileGoingOn {f : ℕ → Step γ Bool} (hf : ∀ i, (f i).Idle setting) (start count : ℕ) :
    (whileGoingOn f start count).Idle setting := by
  induction count generalizing start with
  | zero => exact idle_pure true
  | succ count ih => exact (hf start).bind fun _ => .ite (ih _) (idle_pure false)

variable {rule : Rule} {t : ResultType}

theorem idle_tryCombination (indices : List ℕ) :
    (tryCombination setting rule t indices : Step γ Bool).Idle setting :=
  finished_ends.bind (idle_report.bind fun _ => idle_pure false)

theorem idle_walk {v : Visitor (Step γ)} (hexhausted : v.exhausted.Ends setting)
    (hended : v.ended.Idle setting) (hvisit : ∀ indices, (v.visit indices).Idle setting)
    (n k need : ℕ) (chosen : List ℕ) (start : ℕ) : (walk v n k need chosen start).Idle setting := by
  induction need generalizing chosen start with
  | zero => exact hvisit _
  | succ need ih =>
    have hrest := idle_whileGoingOn (fun i => ih (i :: chosen) (i + 1)) start (n - need - start)
    rw [walk]
    -- a prefix that is put to the test is given up before the test
    exact .ite (hexhausted.bind (hended.bind fun _ => idle_pure _)) hrest

theorem idle_trySizes (ks : List ℕ) :
    (trySizes setting rule t ks : Step γ Bool).Idle setting := by
  cases ks with
  | nil => exact idle_pure true
  | cons k rest => exact finished_ends.bind (idle_report.bind fun _ => idle_pure false)

theorem idle_tryPasses (ps : List (ResultType × Rule)) :
    (tryPasses setting ps : Step γ Bool).Idle setting := by
  induction ps with
  | nil => exact idle_pure true
  | cons x rest ih =>
    exact idle_forgetRates.bind fun _ => (idle_trySizes _).bind fun _ => .ite ih (idle_pure false)

end Idling

/-! ## Two budgets -/

/-- Whether a step takes back nothing that was found. -/
def Step.Grows (x : Step γ α) : Prop := ∀ s, s.results <+: (x.runFrom s).2.results

theorem Step.Ensures.grows {x : Step γ α}
    (h : ∀ before, x.Ensures (fun s => before <+: s.results) True fun _ => True) : x.Grows :=
  fun s => (h s.results s List.prefix_rfl).2

theorem grows_pure (a : α) : (pure a : Step γ α).Grows := fun _ => List.prefix_rfl

theorem grows_bind {x : Step γ α} {f : α → Step γ β} (hf : ∀ a, (f a).Grows) (s : State γ) :
    (x.runFrom s).2.results <+: (Step.runFrom (x >>= f) s).2.results := by
  rcases hx : x.runFrom s with ⟨e | a,s'⟩
  · rw [runFrom_bind_of_error hx]
  · rw [runFrom_bind_of_ok hx]
    exact hf a s'

/-- Whether two steps do the same from a state on, unless the first one comes to the end of its
budget before. -/
def Step.CutAt (setting : Setting) (x y : Step γ α) (s : State γ) : Prop :=
  x.runFrom s = y.runFrom s ∨ x.Yields s fun _ s' =>
    isSpent setting s' = true ∧ s'.results <+: (y.runFrom s).2.results

def Step.Cut (setting : Setting) (x y : Step γ α) : Prop := ∀ s, Step.CutAt setting x y s

/-- Whether two questions have one answer, unless the first one ends a search at the end of its
budget. -/
def Step.Asks (setting : Setting) (x y : Step γ Bool) : Prop :=
  ∀ s, x.runFrom s = y.runFrom s ∨ x.Yields s fun stop s' =>
    stop = true ∧ isSpent setting s' = true ∧ s'.results = s.results

section Cutting
variable {setting : Setting}

theorem cutAt_bind_of_eq {x y : Step γ α} {f g : α → Step γ β} {s : State γ}
    (hxy : x.runFrom s = y.runFrom s) (h : ∀ a, Step.Cut setting (f a) (g a)) :
    Step.CutAt setting (x >>= f) (y >>= g) s := by
  rcases runFrom_bind_cases hxy f g with hsame | ⟨a,s',hf,hg⟩
  · exact .inl hsame
  · unfold Step.CutAt Step.Yields
    rw [hf,hg]
    exact h a s'

theorem Step.Cut.refl (x : Step γ α) : Step.Cut setting x x := fun _ => .inl rfl

theorem Step.Cut.after (x : Step γ α) {f g : α → Step γ β} (h : ∀ a, Step.Cut setting (f a) (g a)) :
    Step.Cut setting (x >>= f) (x >>= g) :=
  fun _ => cutAt_bind_of_eq rfl h

theorem Step.Cut.ite {p : Prop} {_ : Decidable p} {x x' y y' : Step γ α}
    (hx : Step.Cut setting x x') (hy : Step.Cut setting y y') :
    Step.Cut setting (if p then x else y) (if p then x' else y') := by
  split
  · exact hx
  · exact hy

theorem Step.Cut.bind {x y : Step γ α} {f g : α → Step γ β} (hxy : Step.Cut setting x y)
    (hidle : ∀ a, (f a).Idle setting) (h : ∀ a, Step.Cut setting (f a) (g a))
    (hgrows : ∀ a, (g a).Grows) : Step.Cut setting (x >>= f) (y >>= g) := by
  intro s
  rcases hxy s with hsame | hcut
  · exact cutAt_bind_of_eq hsame h
  · right
    refine hcut.bind fun a s' ⟨hspent,hresults⟩ => (hidle a s' hspent).mono fun _ s'' hrests => ?_
    constructor
    · rwa [hrests.isSpent_eq]
    · rw [hrests.results]
      exact hresults.trans (grows_bind hgrows s)

/-- Steps that are taken while the answer is to go on. -/
theorem Step.Cut.goOn {x y f g : Step γ Bool} (hxy : Step.Cut setting x y) (hidle : f.Idle setting)
    (h : Step.Cut setting f g) (hgrows : g.Grows) :
    Step.Cut setting (do if ← x then f else return false) (do if ← y then g else return false) := by
  refine hxy.bind (fun _ => .ite hidle (idle_pure false)) (fun _ => .ite h (.refl _)) ?_
  intro goOn
  split
  · exact hgrows
  · exact grows_pure false

theorem Step.Asks.bind {x y : Step γ Bool} {f g : Bool → Step γ α} (hxy : Step.Asks setting x y)
    (hidle : (f true).Idle setting) (h : ∀ stop, Step.Cut setting (f stop) (g stop))
    (hgrows : Step.Grows (y >>= g)) : Step.Cut setting (x >>= f) (y >>= g) := by
  intro s
  rcases hxy s with hsame | hstop
  · exact cutAt_bind_of_eq hsame h
  · right
    refine hstop.bind ?_
    rintro _ s' ⟨rfl,hspent,hresults⟩
    refine (hidle s' hspent).mono fun _ s'' hrests => ?_
    constructor
    · rwa [hrests.isSpent_eq]
    · rw [hrests.results,hresults]
      exact hgrows s

end Cutting

/-! ## Searches with two budgets -/

section Searches
variable {setting : Setting} {m m' : ℤ}

/-- The smaller budget is used up where the larger one is. -/
theorem isSpent_of_le (hm : 1 ≤ m) (h : m ≤ m' ∨ m' = 0) {s : State γ}
    (hs : isSpent (setting.limited m') s = true) : isSpent (setting.limited m) s = true := by
  unfold isSpent limitReached Setting.limited at *
  simp only [Bool.or_eq_true,Bool.and_eq_true,decide_eq_true_eq] at *
  rcases hs with ⟨hne,hle⟩ | hovertime
  · left
    constructor <;> omega
  · exact .inr hovertime

variable (hspent : ∀ s : State γ, isSpent (setting.limited m') s = true →
  isSpent (setting.limited m) s = true)
include hspent

/-- Where the smaller budget lasts the larger one does. -/
theorem lasts_of_lasts {s : State γ} (hs : isSpent (setting.limited m) s = false) :
    isSpent (setting.limited m') s = false := by
  refine Bool.eq_false_iff.mpr fun hlarge => ?_
  rw [hspent s hlarge] at hs
  cases hs

theorem exhausted_asks :
    Step.Asks (setting.limited m) (exhausted (setting.limited m) : Step γ Bool)
      (exhausted (setting.limited m')) := by
  intro s
  cases hs : isSpent (setting.limited m) s with
  | false =>
    left
    have hs' := lasts_of_lasts hspent hs
    rw [runFrom_exhausted,runFrom_exhausted,hs,hs']
    rfl
  | true =>
    right
    obtain ⟨stop,s',hrun,hstop,hrests⟩ := exhausted_ends s hs
    exact ⟨stop,s',hrun,hstop,by rwa [hrests.isSpent_eq],hrests.results⟩

theorem finished_asks :
    Step.Asks (setting.limited m) (finished (setting.limited m) : Step γ Bool)
      (finished (setting.limited m')) := by
  intro s
  by_cases hfull : setting.params.maxCount ≤ s.results.length
  · have hsmall := finished_of_full (setting.limited m) hfull
    have hlarge := finished_of_full (setting.limited m') hfull
    exact .inl (hsmall.trans hlarge.symm)
  · have hsmall := finished_of_room (setting.limited m) hfull
    have hlarge := finished_of_room (setting.limited m') hfull
    rcases exhausted_asks hspent s with hsame | ⟨stop,s',hrun,hstop⟩
    · exact .inl (hsmall.trans (hsame.trans hlarge.symm))
    · exact .inr ⟨stop,s',hsmall.trans hrun,hstop⟩

theorem endIfSpent_cut :
    Step.Cut (setting.limited m) (endIfSpent (setting.limited m) : Step γ Bool)
      (endIfSpent (setting.limited m')) := by
  intro s
  unfold endIfSpent
  cases hs : isSpent (setting.limited m) s with
  | false =>
    left
    have hs' := lasts_of_lasts hspent hs
    rw [runFrom_get_bind,runFrom_get_bind,hs,hs']
  | true =>
    right
    obtain ⟨stop,s',hrun,hrests⟩ := idle_endIfSpent s hs
    refine ⟨stop,s',hrun,by rwa [hrests.isSpent_eq],?_⟩
    rw [hrests.results,runFrom_get_bind]
    split <;> exact List.prefix_rfl

variable {rule : Rule} {t : ResultType}

section Exhaustion

omit hspent in
theorem whileGoingOn_cut {f g : ℕ → Step γ Bool} {start count : ℕ}
    (hidle : ∀ i, (f i).Idle (setting.limited m))
    (h : ∀ i, start ≤ i → i < start + count → Step.Cut (setting.limited m) (f i) (g i) ∧
      ∀ before, (g i).Ensures (fun s => before <+: s.results) True fun _ => True) :
    Step.Cut (setting.limited m) (whileGoingOn f start count) (whileGoingOn g start count) := by
  induction count generalizing start with
  | zero => exact .refl _
  | succ count ih =>
    obtain ⟨hfirst,-⟩ := h start (by omega) (by omega)
    have hrest : ∀ i, start + 1 ≤ i → i < start + 1 + count → _ :=
      fun i hi hlt => h i (by omega) (by omega)
    refine hfirst.goOn (idle_whileGoingOn hidle _ _) (ih hrest) (Step.Ensures.grows fun before => ?_)
    exact Contract.whileGoingOn_ensures fun i hi hlt => (hrest i hi hlt).2 before

theorem tryCombination_cut {indices : List ℕ}
    (hgrows : (tryCombination (setting.limited m') rule t indices : Step γ Bool).Grows) :
    Step.Cut (setting.limited m) (tryCombination (setting.limited m) rule t indices : Step γ Bool)
      (tryCombination (setting.limited m') rule t indices) := by
  refine (finished_asks hspent).bind (idle_report.bind fun _ => idle_pure false) ?_ hgrows
  intro stop
  simp only [Setting.params_limited,score_limited,reportIfDue_limited]
  exact .refl _

variable (hpass : (t,rule) ∈ passes setting.params)
include hpass

theorem walk_cut {k need : ℕ} {chosen : List ℕ} {start : ℕ}
    (hk : 0 < k ∧ k ≤ setting.params.strategy.mostElements) (hneed : chosen.length + need = k)
    (hbelow : ∀ i ∈ chosen, i < elementNames.length) :
    Step.Cut (setting.limited m)
      (walk (visitor (setting.limited m) rule t : Visitor (Step γ)) elementNames.length k need
        chosen start)
      (walk (visitor (setting.limited m') rule t) elementNames.length k need chosen start) := by
  have hensures (need : ℕ) (chosen : List ℕ) (start : ℕ) (hneed : chosen.length + need = k)
      (hbelow : ∀ i ∈ chosen, i < elementNames.length) (before : List Found) :
      (walk (visitor (setting.limited m') rule t : Visitor (Step γ)) elementNames.length k need
        chosen start).Ensures (fun s => before <+: s.results) True fun _ => True :=
    (growing_contract (setting.limited m') before 1).walk_ensures hpass combining_of_any hk hneed
      hbelow
  induction need generalizing chosen start with
  | zero =>
    exact tryCombination_cut hspent (Step.Ensures.grows (hensures 0 chosen start hneed hbelow))
  | succ need ih =>
    have hlonger : ∀ i, start ≤ i → i < start + (elementNames.length - need - start) →
        (i :: chosen).length + need = k ∧ ∀ j ∈ i :: chosen, j < elementNames.length := by
      intro i hi hlt
      exact ⟨by simp only [List.length_cons]; omega,List.forall_mem_cons.mpr ⟨by omega,hbelow⟩⟩
    have hrest : Step.Cut (setting.limited m)
        (whileGoingOn (fun i => walk (visitor (setting.limited m) rule t : Visitor (Step γ))
          elementNames.length k need (i :: chosen) (i + 1)) start
            (elementNames.length - need - start))
        (whileGoingOn (fun i => walk (visitor (setting.limited m') rule t) elementNames.length k
          need (i :: chosen) (i + 1)) start (elementNames.length - need - start)) := by
      refine whileGoingOn_cut (fun i => ?_) fun i hi hlt => ?_
      · exact idle_walk exhausted_ends idle_endIfSpent idle_tryCombination _ _ _ _ _
      · obtain ⟨hneed',hbelow'⟩ := hlonger i hi hlt
        exact ⟨ih hneed' hbelow',hensures need (i :: chosen) (i + 1) hneed' hbelow'⟩
    have hgrows := Step.Ensures.grows (hensures (need + 1) chosen start hneed hbelow)
    rw [walk] at hgrows ⊢
    rw [walk]
    by_cases hhalf : 1 < k ∧ chosen.length = prefixLength k
    · rw [if_pos hhalf] at hgrows ⊢
      rw [if_pos hhalf]
      refine (exhausted_asks hspent).bind (idle_endIfSpent.bind fun _ => idle_pure _) ?_ hgrows
      intro stop
      simp only [goInto_visitor,leaveOut_visitor,prefixSurvives_limited]
      refine .ite ?_ (.after _ fun inside => .ite (.refl _) hrest)
      exact (endIfSpent_cut hspent).bind (fun _ => idle_pure _) (fun _ => .refl _)
        fun _ => grows_pure _
    · rw [if_neg hhalf,if_neg hhalf]
      exact hrest

theorem trySizes_cut {ks : List ℕ} (hks : ∀ k ∈ ks, k ∈ sizes setting.params.strategy) :
    Step.Cut (setting.limited m) (trySizes (setting.limited m) rule t ks : Step γ Bool)
      (trySizes (setting.limited m') rule t ks) := by
  have hensures {ks : List ℕ} (hks : ∀ k ∈ ks, k ∈ sizes setting.params.strategy)
      (before : List Found) : (trySizes (setting.limited m') rule t ks : Step γ Bool).Ensures
        (fun s => before <+: s.results) True fun _ => True :=
    (growing_contract (setting.limited m') before 1).trySizes_ensures hpass combining_of_any hks
  induction ks with
  | nil => exact .refl _
  | cons k rest ih =>
    obtain ⟨hk,hrest⟩ := List.forall_mem_cons.mp hks
    refine (finished_asks hspent).bind (idle_report.bind fun _ => idle_pure false) ?_
      (Step.Ensures.grows (hensures hks))
    refine fun stop => .ite (.refl _) ?_
    exact (walk_cut hspent hpass (Contract.size_bounds hk) (by simp) (by simp)).goOn
      (idle_trySizes rest) (ih hrest) (Step.Ensures.grows (hensures hrest))

omit hpass in
theorem tryPasses_cut {ps : List (ResultType × Rule)} (hps : ∀ x ∈ ps, x ∈ passes setting.params) :
    Step.Cut (setting.limited m) (tryPasses (setting.limited m) ps : Step γ Bool)
      (tryPasses (setting.limited m') ps) := by
  induction ps with
  | nil => exact .refl _
  | cons x rest ih =>
    obtain ⟨hx,hrest⟩ := List.forall_mem_cons.mp hps
    have hgrows : Step.Grows (tryPasses (setting.limited m') rest : Step γ Bool) :=
      Step.Ensures.grows fun before =>
        (growing_contract (setting.limited m') before 1).tryPasses_ensures combining_of_any hrest
    refine .after _ fun _ => ?_
    exact (trySizes_cut hspent hx fun _ hk => hk).goOn (idle_tryPasses rest) (ih hrest) hgrows

omit hpass in
theorem exhaust_cut : Step.Cut (setting.limited m) (exhaust (setting.limited m) : Step γ Unit)
    (exhaust (setting.limited m')) := by
  refine .after _ fun _ => (tryPasses_cut hspent fun _ hx => hx).bind ?_ ?_ ?_
  · exact fun _ => .ite idle_report (idle_pure ())
  · exact fun _ => .refl _
  · intro goOn
    split
    · exact fun _ => List.prefix_rfl
    · exact grows_pure ()

end Exhaustion

section Evolution
variable [RandomSource γ]

theorem generations_cut (count : ℕ) :
    Step.Cut (setting.limited m) (generations (setting.limited m) count : Step γ Unit)
      (generations (setting.limited m') count) := by
  induction count with
  | zero => exact .refl _
  | succ count ih =>
    have hgrows : Step.Grows (generations (setting.limited m') (count + 1) : Step γ Unit) := by
      refine Step.Ensures.grows fun before => ?_
      have hcontract := growing_contract (γ := γ) (setting.limited m') before 2
      exact hcontract.generations_ensures (breeding_of_draws hcontract.draws) (count + 1)
    refine (exhausted_asks hspent).bind (idle_pure ()) (fun stop => .ite (.refl _) ?_) hgrows
    simp only [generation_limited]
    exact .after _ fun enough => .ite (.refl _) ih

theorem evolve_cut : Step.Cut (setting.limited m) (evolve (setting.limited m) : Step γ Unit)
    (evolve (setting.limited m')) := by
  unfold evolve
  simp only [considerSeeds_limited,considerTemplates_limited,Setting.params_limited]
  refine .after _ fun _ => .after _ fun _ => .after _ fun _ => ?_
  exact generations_cut hspent _

end Evolution

end Searches

/-- With the smaller of two budgets a search finds the first of the formulas that it finds with the
larger one, or without a limit. -/
theorem run_limited [RandomSource γ] (setting : Setting) {m m' : ℤ} (hm : 1 ≤ m)
    (h : m ≤ m' ∨ m' = 0) (s : State γ) :
    (run { setting with evaluationLimit := m } s).2.results <+:
      (run { setting with evaluationLimit := m' } s).2.results := by
  change (run (setting.limited m) s).2.results <+: (run (setting.limited m') s).2.results
  have hspent : ∀ s : State γ, isSpent (setting.limited m') s = true →
      isSpent (setting.limited m) s = true := fun _ => isSpent_of_le hm h
  have hcut : Step.Cut (setting.limited m) (explore (setting.limited m) : Step γ Unit)
      (explore (setting.limited m')) := by
    unfold explore
    simp only [Setting.params_limited]
    split
    · exact exhaust_cut hspent
    · exact evolve_cut hspent
  have hhistory : (setting.limited m).history = (setting.limited m').history := rfl
  rw [after_run,after_run,hhistory]
  split
  · exact List.prefix_rfl
  · rcases hcut s with hsame | ⟨a,s',hrun,-,hresults⟩
    · rw [hsame]
    · rw [hrun]
      exact hresults

theorem run_limited_one :
    let setting := overTwo [Backtest.lowDraw 2 9 (by decide),Backtest.lowDraw 1 7 (by decide)]
    let s := State.initial (Twister.ofTexts ["search".toList,['0']]) 1
    (1 : ℤ) ≤ 1 ∧ ((1 : ℤ) ≤ 0 ∨ (0 : ℤ) = 0) ∧
      (run { setting with evaluationLimit := 1 } s).2.results <+:
        (run { setting with evaluationLimit := 0 } s).2.results := by
  intro setting s
  exact ⟨le_rfl,.inr rfl,run_limited setting le_rfl (.inr rfl) s⟩

end DrawFormula.Search
