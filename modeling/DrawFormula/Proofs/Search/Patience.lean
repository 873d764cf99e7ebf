import DrawFormula.Proofs.Search.Budget

/-! # Walks without an early end

When evaluations or time are used up, an exhaustive search ends at the next prefix that it would put
to the test. A patient search gives up one prefix after the other instead, in every size, rule and
result type, until its walk is over or a combination is due. It finds the same.
-/
namespace DrawFormula.Search
variable {γ α β : Type}

/-! ## Patient searches -/

/-- What a patient search does on its walk. -/
def patient (setting : Setting) (rule : Rule) (t : ResultType) : Visitor (Step γ) :=
  { visitor setting rule t with ended := pure false }

def patientSizes (setting : Setting) (rule : Rule) (t : ResultType) : List ℕ → Step γ Bool
  | [] => return true
  | k :: rest => do
    if ← finished setting then
      report
      return false
    if ← walkAll (patient setting rule t) elementNames.length k then
      patientSizes setting rule t rest
    else return false

def patientPasses (setting : Setting) : List (ResultType × Rule) → Step γ Bool
  | [] => return true
  | (t,rule) :: rest => do
    modify fun s => { s with rates := ∅ }
    if ← patientSizes setting rule t (sizes setting.params.strategy) then patientPasses setting rest
    else return false

/-- The patient search. -/
def patientExhaust (setting : Setting) : Step γ Unit := do
  let p := setting.params
  modify fun s => { s with total := combinationsPerPass p.strategy * (passes p).length }
  if ← patientPasses setting (passes p) then report

/-! ## Steps that come to the same -/

/-- Whether two steps do the same from a state on, unless both find the budget used up, where the
second one ends the search. -/
def Step.AlikeAt (setting : Setting) (x y : Step γ Bool) (s : State γ) : Prop :=
  x.runFrom s = y.runFrom s ∨ ∃ goOn s₁ s₂, x.runFrom s = (.ok goOn,s₁) ∧
    y.runFrom s = (.ok false,s₂) ∧ isSpent setting s₁ = true ∧ s₁.results = s₂.results

def Step.Alike (setting : Setting) (x y : Step γ Bool) : Prop := ∀ s, Step.AlikeAt setting x y s

section Likeness
variable {setting : Setting}

theorem Step.Alike.refl (x : Step γ Bool) : Step.Alike setting x x := fun _ => .inl rfl

theorem alikeAt_bind_of_eq {x y : Step γ α} {f g : α → Step γ Bool} {s : State γ}
    (hxy : x.runFrom s = y.runFrom s) (h : ∀ a, Step.Alike setting (f a) (g a)) :
    Step.AlikeAt setting (x >>= f) (y >>= g) s := by
  rcases runFrom_bind_cases hxy f g with hsame | ⟨a,s',hf,hg⟩
  · exact .inl hsame
  · unfold Step.AlikeAt
    rw [hf,hg]
    exact h a s'

theorem Step.Alike.after (x : Step γ α) {f g : α → Step γ Bool}
    (h : ∀ a, Step.Alike setting (f a) (g a)) : Step.Alike setting (x >>= f) (x >>= g) :=
  fun _ => alikeAt_bind_of_eq rfl h

theorem Step.Alike.ite {p : Prop} {_ : Decidable p} {x x' y y' : Step γ Bool}
    (hx : Step.Alike setting x x') (hy : Step.Alike setting y y') :
    Step.Alike setting (if p then x else y) (if p then x' else y') := by
  split
  · exact hx
  · exact hy

/-- Steps that are taken while the answer is to go on. -/
theorem Step.Alike.goOn {x y f g : Step γ Bool} (hxy : Step.Alike setting x y)
    (hidle : f.Idle setting) (h : Step.Alike setting f g) :
    Step.Alike setting (do if ← x then f else return false)
      (do if ← y then g else return false) := by
  intro s
  rcases hxy s with hsame | ⟨goOn,s₁,s₂,hx,hy,hspent,hresults⟩
  · exact alikeAt_bind_of_eq hsame fun _ => .ite h (.refl _)
  · right
    have hrest : ((if goOn = true then f else pure false : Step γ Bool)).Idle setting :=
      .ite hidle (idle_pure false)
    obtain ⟨goOn',s',hrun,hrests⟩ := hrest s₁ hspent
    refine ⟨goOn',s',s₂,?_,?_,by rwa [hrests.isSpent_eq],hrests.results.trans hresults⟩
    · rw [runFrom_bind_of_ok hx,hrun]
    · rw [runFrom_bind_of_ok hy]
      rfl

theorem whileGoingOn_alike {f g : ℕ → Step γ Bool} (hidle : ∀ i, (f i).Idle setting)
    (h : ∀ i, Step.Alike setting (f i) (g i)) (start count : ℕ) :
    Step.Alike setting (whileGoingOn f start count) (whileGoingOn g start count) := by
  induction count generalizing start with
  | zero => exact .refl _
  | succ count ih => exact (h start).goOn (idle_whileGoingOn hidle _ _) (ih _)

variable {rule : Rule} {t : ResultType}

theorem idle_patient (n k need : ℕ) (chosen : List ℕ) (start : ℕ) :
    (walk (patient setting rule t : Visitor (Step γ)) n k need chosen start).Idle setting :=
  idle_walk exhausted_ends (idle_pure false) idle_tryCombination n k need chosen start

/-- Only a search whose evaluations or time are used up is ended early. -/
theorem endIfSpent_alike : Step.Alike setting (pure true)
    (do return !(← endIfSpent setting) : Step γ Bool) := by
  intro s
  cases hs : isSpent setting s with
  | false =>
    left
    have hgoOn : (endIfSpent setting).runFrom s = (.ok false,s) := by
      rw [endIfSpent,runFrom_get_bind,hs]
      rfl
    rw [runFrom_bind_of_ok hgoOn]
    rfl
  | true =>
    right
    obtain ⟨s',hends,hresults⟩ : ∃ s', (endIfSpent setting).runFrom s = (.ok true,s') ∧
        s.results = s'.results := by
      rw [endIfSpent,runFrom_get_bind,hs]
      exact ⟨_,rfl,rfl⟩
    exact ⟨true,s,s',rfl,by rw [runFrom_bind_of_ok hends]; rfl,hs,hresults⟩

theorem walk_alike (n k need : ℕ) (chosen : List ℕ) (start : ℕ) :
    Step.Alike setting (walk (patient setting rule t : Visitor (Step γ)) n k need chosen start)
      (walk (visitor setting rule t) n k need chosen start) := by
  induction need generalizing chosen start with
  | zero => exact .refl _
  | succ need ih =>
    have hrest := whileGoingOn_alike (fun i => idle_patient n k need (i :: chosen) (i + 1))
      (fun i => ih (i :: chosen) (i + 1)) start (n - need - start)
    rw [walk,walk]
    refine .ite (.after _ fun stop => .ite endIfSpent_alike ?_) hrest
    exact .after _ fun inside => .ite (.refl _) hrest

theorem idle_patientSizes (ks : List ℕ) :
    (patientSizes setting rule t ks : Step γ Bool).Idle setting := by
  cases ks with
  | nil => exact idle_pure true
  | cons k rest => exact finished_ends.bind (idle_report.bind fun _ => idle_pure false)

theorem patientSizes_alike (ks : List ℕ) :
    Step.Alike setting (patientSizes setting rule t ks : Step γ Bool)
      (trySizes setting rule t ks) := by
  induction ks with
  | nil => exact .refl _
  | cons k rest ih =>
    refine .after _ fun stop => .ite (.refl _) ?_
    exact (walk_alike _ _ _ _ _).goOn (idle_patientSizes rest) ih

theorem idle_patientPasses (ps : List (ResultType × Rule)) :
    (patientPasses setting ps : Step γ Bool).Idle setting := by
  induction ps with
  | nil => exact idle_pure true
  | cons x rest ih =>
    refine idle_forgetRates.bind fun _ => (idle_patientSizes _).bind fun _ => ?_
    exact .ite ih (idle_pure false)

theorem patientPasses_alike (ps : List (ResultType × Rule)) :
    Step.Alike setting (patientPasses setting ps : Step γ Bool) (tryPasses setting ps) := by
  induction ps with
  | nil => exact .refl _
  | cons x rest ih =>
    exact .after _ fun _ => (patientSizes_alike _).goOn (idle_patientPasses rest) ih

end Likeness

/-- A patient search finds the same formulas as one that is ended early. -/
theorem patientExhaust_results (setting : Setting) (s : State γ) :
    ((patientExhaust setting).runFrom s).1 = ((exhaust setting).runFrom s).1 ∧
      ((patientExhaust setting).runFrom s).2.results = ((exhaust setting).runFrom s).2.results := by
  let start : State γ := { s with
    total := combinationsPerPass setting.params.strategy * (passes setting.params).length }
  let finish (goOn : Bool) : Step γ Unit := if goOn then report else pure ()
  have hpatient : (patientExhaust setting).runFrom s =
    Step.runFrom (patientPasses setting (passes setting.params) >>= finish) start := rfl
  have hexhaust : (exhaust setting).runFrom s =
    Step.runFrom (tryPasses setting (passes setting.params) >>= finish) start := rfl
  rw [hpatient,hexhaust]
  rcases patientPasses_alike (passes setting.params) start with
    hsame | ⟨goOn,s₁,s₂,hx,hy,-,hresults⟩
  · rcases runFrom_bind_cases hsame finish finish with heq | ⟨a,s',hf,hg⟩
    · rw [heq]
      exact ⟨rfl,rfl⟩
    · rw [hf,hg]
      exact ⟨rfl,rfl⟩
  · rw [runFrom_bind_of_ok hx,runFrom_bind_of_ok hy]
    cases goOn <;> exact ⟨rfl,hresults⟩

end DrawFormula.Search
