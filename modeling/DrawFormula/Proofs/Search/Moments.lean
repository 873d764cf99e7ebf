import DrawFormula.Proofs.Search.Budget
import DrawFormula.Proofs.Search.Combinations

/-! # The moments of an exhaustive search

A search is a sequence of primitive steps. To say something of every moment of a search is to say it
of each state before, between and after these steps. What holds at every moment of an exhaustive
search follows from what each primitive step does to a class of states that depends on how many
combinations are left, where formulas are scored only as long as the budget lasts, and formulas are
added only as long as there are not enough.
-/
namespace DrawFormula.Search
variable {γ α β : Type}

/-! ## Moments -/

/-- The primitive steps that searches are made of. -/
inductive Primitive (setting : Setting) : {α : Type} → Step γ α → Prop where
  | draws {α : Type} (f : γ → α × γ) : Primitive setting (drawing f)
  | asks : Primitive setting (asksToStop setting)
  | reports : Primitive setting report
  | counts (n : ℕ) : Primitive setting (countProcessed n)
  | leavesOut (n : ℕ) : Primitive setting (leaveOut n)
  | expects (n : ℕ) : Primitive setting (modify fun s => { s with total := n })
  | rates (f : Std.HashMap Text (Option Float) → Std.HashMap Text (Option Float)) :
    Primitive setting (modify fun s => { s with rates := f s.rates })
  | keeps (found : List Found) : Primitive setting (keep found)
  | scores (text : Text) : Primitive setting (score setting text)

/-- Whether a step, taken in a state, is made of primitive steps so that at every moment, from the
first to the last one, also where it fails, the state is in a class. -/
inductive Step.Stays (setting : Setting) (I : State γ → Prop) :
    {α : Type} → Step γ α → State γ → Prop where
  | pure {α : Type} {s : State γ} (a : α) : I s → Stays setting I (pure a) s
  | except {α : Type} {s : State γ} (x : Except NumeralError α) : I s →
    Stays setting I (liftExcept x) s
  | get {s : State γ} : I s → Stays setting I get s
  | primitive {α : Type} {x : Step γ α} {s : State γ} : Primitive setting x → I s →
    I (x.runFrom s).2 → Stays setting I x s
  | bind {α β : Type} {x : Step γ α} {f : α → Step γ β} {s : State γ} : Stays setting I x s →
    (∀ a s', x.runFrom s = (.ok a,s') → Stays setting I (f a) s') → Stays setting I (x >>= f) s

theorem Step.Stays.after {setting : Setting} {I : State γ → Prop} {x : Step γ α} {s : State γ}
    (h : x.Stays setting I s) : I (x.runFrom s).2 := by
  induction h with
  | pure a hs => exact hs
  | except x hs => cases x <;> exact hs
  | get hs => exact hs
  | primitive _ _ hafter => exact hafter
  | @bind _ _ x f s _ _ ihx ihf =>
    rcases hx : x.runFrom s with ⟨e | a,s'⟩
    · rw [runFrom_bind_of_error hx]
      rwa [hx] at ihx
    · rw [runFrom_bind_of_ok hx]
      exact ihf a s' hx

theorem Step.Stays.mono {setting : Setting} {I J : State γ → Prop} {x : Step γ α} {s : State γ}
    (h : x.Stays setting I s) (hIJ : ∀ s, I s → J s) : x.Stays setting J s := by
  induction h with
  | pure a hs => exact .pure a (hIJ _ hs)
  | except x hs => exact .except x (hIJ _ hs)
  | get hs => exact .get (hIJ _ hs)
  | primitive hx hs hafter => exact .primitive hx (hIJ _ hs) (hIJ _ hafter)
  | bind _ _ ihx ihf => exact .bind ihx ihf

/-- Whether a step keeps to a class at every moment, and what holds of its answer and of the state
after it. -/
def Step.Leads (setting : Setting) (I : State γ → Prop) (x : Step γ α) (s : State γ)
    (Q : α → State γ → Prop) : Prop :=
  x.Stays setting I s ∧ ∀ a s', x.runFrom s = (.ok a,s') → Q a s'

namespace Step.Leads
variable {setting : Setting} {I : State γ → Prop} {s : State γ} {P Q : α → State γ → Prop}
  {R : β → State γ → Prop}

theorem of_pure {a : α} (hs : I s) (h : Q a s) : Step.Leads setting I (pure a) s Q := by
  refine ⟨.pure a hs,?_⟩
  rintro _ _ ⟨⟩
  exact h

theorem of_get {Q : State γ → State γ → Prop} (hs : I s) (h : Q s s) :
    Step.Leads setting I get s Q := by
  refine ⟨.get hs,?_⟩
  rintro _ _ ⟨⟩
  exact h

theorem of_except (x : Except NumeralError α) (hs : I s) :
    Step.Leads setting I (liftExcept x) s fun _ s' => s' = s := by
  refine ⟨.except x hs,?_⟩
  cases x with
  | ok a =>
    rintro _ _ ⟨⟩
    rfl
  | error e => nofun

theorem of_primitive {x : Step γ α} (hx : Primitive setting x) (hs : I s)
    (hafter : I (x.runFrom s).2) :
    Step.Leads setting I x s fun a s' => x.runFrom s = (.ok a,s') :=
  ⟨.primitive hx hs hafter,fun _ _ hrun => hrun⟩

theorem mono {x : Step γ α} (hx : x.Leads setting I s Q) (h : ∀ a s', Q a s' → P a s') :
    x.Leads setting I s P :=
  ⟨hx.1,fun a s' hrun => h a s' (hx.2 a s' hrun)⟩

theorem bind {x : Step γ α} {f : α → Step γ β} (hx : x.Leads setting I s Q)
    (hf : ∀ a s', Q a s' → (f a).Leads setting I s' R) : Step.Leads setting I (x >>= f) s R := by
  refine ⟨.bind hx.1 fun a s' hrun => (hf a s' (hx.2 a s' hrun)).1,fun b s'' hrun => ?_⟩
  rcases h : x.runFrom s with ⟨e | a,s'⟩
  · rw [runFrom_bind_of_error h] at hrun
    cases hrun
  · rw [runFrom_bind_of_ok h] at hrun
    exact (hf a s' (hx.2 a s' h)).2 b s'' hrun

theorem ite {p : Prop} {_ : Decidable p} {x y : Step γ α} (hx : p → x.Leads setting I s Q)
    (hy : ¬ p → y.Leads setting I s Q) : Step.Leads setting I (if p then x else y) s Q := by
  split
  · next hp => exact hx hp
  · next hp => exact hy hp

end Step.Leads

/-! ## The pace of an exhaustive search -/

/-- Whether a search was told to stop, has used up its budget, or has found enough. -/
def Interrupted (setting : Setting) (s : State γ) : Prop :=
  (∃ n < s.asked, setting.stop n = true) ∨ isSpent setting s = true ∨
    setting.params.maxCount ≤ s.results.length

/-- What the primitive steps of an exhaustive search do to classes of states, one for each number of
combinations that are left. Formulas are scored within the budget and added while there is room, and
combinations are given up only by a search that is interrupted. -/
structure Pace (setting : Setting) (I : ℕ → State γ → Prop) : Prop where
  asks : ∀ left (s : State γ), I left s → I left { s with asked := s.asked + 1 }
  reports : ∀ left (s : State γ), I left s → I left { s with
    progress := s.progress ++
      [⟨s.processed,max s.total s.processed,s.results.length,s.results⟩] }
  counts : ∀ left (s : State γ), I (left + 1) s → I left { s with processed := s.processed + 1 }
  leavesOut : ∀ left n (s : State γ), I (left + n) s →
    I left { s with processed := s.processed + n, pruned := s.pruned + n }
  rates : ∀ left (s : State γ) (rates : Std.HashMap Text (Option Float)),
    I left s → I left { s with rates := rates }
  finds : ∀ left (s : State γ) (r : Found), s.results.length < setting.params.maxCount →
    I left s → I left { s with results := s.results ++ [r] }
  scores : ∀ left (s : State γ) (text : Text), isSpent setting s = false → I left s →
    I left ((score setting text).runFrom s).2
  abandons : ∀ left n (s : State γ), Interrupted setting s → I (left + n) s → I left s

/-- The states of a search with any number of combinations left. -/
def Underway (I : ℕ → State γ → Prop) (s : State γ) : Prop := ∃ left, I left s

/-- Whether a step deals with so many combinations, unless the search is interrupted. -/
def Step.Deals (setting : Setting) (I : ℕ → State γ → Prop) (n : ℕ) (x : Step γ Bool) : Prop :=
  ∀ left s, I (left + n) s → x.Leads setting (Underway I) s fun goOn s' =>
    I left s' ∧ (goOn = false → Interrupted setting s')

section Dealing
variable {setting : Setting} {I : ℕ → State γ → Prop} (h : Pace setting I)
include h

/-! ## Questions, messages and scores -/

theorem exhausted_leads {left : ℕ} {s : State γ} (hs : I left s) :
    (exhausted setting).Leads setting (Underway I) s fun stop s' => I left s' ∧ Rests s s' ∧
      if stop then Interrupted setting s' else isSpent setting s' = false := by
  have hasked := h.asks left s hs
  have hasks : (asksToStop setting).runFrom s =
    (.ok (setting.stop s.asked),{ s with asked := s.asked + 1 }) := rfl
  refine (Step.Leads.of_primitive .asks ⟨left,hs⟩ ⟨left,hasked⟩).bind ?_
  rintro stop s' hrun
  rw [hasks] at hrun
  cases hrun
  refine .ite (fun hstop => ?_) fun _ => ?_
  · exact .of_pure ⟨left,hasked⟩ ⟨hasked,⟨rfl,rfl⟩,.inl ⟨s.asked,Nat.lt_succ_self _,hstop⟩⟩
  · refine (Step.Leads.of_get (Q := fun a s' => a = s' ∧ s' = { s with asked := s.asked + 1 })
      ⟨left,hasked⟩ ⟨rfl,rfl⟩).bind ?_
    rintro _ _ ⟨rfl,rfl⟩
    refine .of_pure ⟨left,hasked⟩ ⟨hasked,⟨rfl,rfl⟩,?_⟩
    split
    · next hspent => exact .inr (.inl hspent)
    · next hlasts => simpa using hlasts

theorem finished_leads {left : ℕ} {s : State γ} (hs : I left s) :
    (finished setting).Leads setting (Underway I) s fun stop s' => I left s' ∧
      if stop then Interrupted setting s' else
        isSpent setting s' = false ∧ s'.results.length < setting.params.maxCount := by
  refine (Step.Leads.of_get (Q := fun a s' => a = s ∧ s' = s) ⟨left,hs⟩ ⟨rfl,rfl⟩).bind ?_
  rintro _ _ ⟨rfl,rfl⟩
  refine .ite (fun hfull => .of_pure ⟨left,hs⟩ ⟨hs,.inr (.inr hfull)⟩) fun hroom => ?_
  refine (exhausted_leads h hs).mono ?_
  rintro stop s' ⟨hs',hrests,hend⟩
  refine ⟨hs',?_⟩
  split
  · next hstop => simpa [hstop] using hend
  · next hstop => exact ⟨by simpa [hstop] using hend,by rw [hrests.results]; omega⟩

theorem report_leads {left : ℕ} {s : State γ} (hs : I left s) :
    report.Leads setting (Underway I) s fun _ s' => I left s' ∧ Rests s s' ∧
      (Interrupted setting s → Interrupted setting s') := by
  refine (Step.Leads.of_primitive .reports ⟨left,hs⟩ ⟨left,h.reports left s hs⟩).mono ?_
  rintro _ _ ⟨⟩
  exact ⟨h.reports left s hs,⟨rfl,rfl⟩,id⟩

theorem reportIfDue_leads {left : ℕ} {s : State γ} (hs : I left s) :
    (reportIfDue setting).Leads setting (Underway I) s fun _ s' => I left s' ∧ Rests s s' := by
  refine (Step.Leads.of_get (Q := fun a s' => a = s ∧ s' = s) ⟨left,hs⟩ ⟨rfl,rfl⟩).bind ?_
  rintro _ _ ⟨rfl,rfl⟩
  refine .ite (fun _ => ?_) fun _ => .of_pure ⟨left,hs⟩ ⟨hs,.refl _⟩
  exact (report_leads h hs).mono fun _ _ hreport => ⟨hreport.1,hreport.2.1⟩

theorem score_leads {left : ℕ} {s : State γ} (text : Text) (hlasts : isSpent setting s = false)
    (hs : I left s) : (score setting text).Leads setting (Underway I) s fun _ s' =>
      I left s' ∧ s'.results = s.results := by
  have hscored := h.scores left s text hlasts hs
  refine (Step.Leads.of_primitive (.scores text) ⟨left,hs⟩ ⟨left,hscored⟩).mono ?_
  intro found s' hrun
  obtain ⟨seen,evaluations,cache,hafter⟩ := after_score setting text s
  rw [hrun] at hscored hafter
  exact ⟨hscored,by rw [show s' = _ from hafter]⟩

/-! ## Combinations -/

variable {rule : Rule} {t : ResultType}

theorem prefixSurvives_leads {left : ℕ} {s : State γ} (names : List Text)
    (hlasts : isSpent setting s = false) (hs : I left s) :
    (prefixSurvives setting rule t names).Leads setting (Underway I) s fun _ s' => I left s' := by
  refine (Step.Leads.of_except _ ⟨left,hs⟩).bind ?_
  rintro text s rfl
  refine (Step.Leads.of_get (Q := fun a s' => a = s ∧ s' = s) ⟨left,hs⟩ ⟨rfl,rfl⟩).bind ?_
  rintro _ _ ⟨rfl,rfl⟩
  dsimp only
  -- the rate is remembered, or it comes from a score and is then remembered
  split
  · exact .of_pure ⟨left,hs⟩ hs
  · refine (score_leads h text hlasts hs).bind fun found s₁ ⟨hs₁,_⟩ => ?_
    have hrates := h.rates left s₁ (s₁.rates.insert (List.intercalate ['+'] names)
      (found.map fun r => r.hitRate * 100)) hs₁
    refine (Step.Leads.of_primitive (.rates fun rates => rates.insert _ _) ⟨left,hs₁⟩
      ⟨left,hrates⟩).bind ?_
    rintro _ _ ⟨⟩
    exact .of_pure ⟨left,hrates⟩ hrates

theorem tryCombination_deals (indices : List ℕ) :
    Step.Deals setting I 1 (tryCombination setting rule t indices) := by
  intro left s hs
  refine (finished_leads h hs).bind fun stop s₁ ⟨hs₁,hend⟩ => ?_
  refine .ite (fun hstop => ?_) fun hgoOn => ?_
  · refine (report_leads h hs₁).bind fun _ s₂ ⟨hs₂,_,hreport⟩ => ?_
    have hinterrupted := hreport (by simpa [hstop] using hend)
    exact .of_pure ⟨_,hs₂⟩ ⟨h.abandons left 1 s₂ hinterrupted hs₂,fun _ => hinterrupted⟩
  · obtain ⟨hlasts,hroom⟩ : isSpent setting s₁ = false ∧
        s₁.results.length < setting.params.maxCount := by simpa [hgoOn] using hend
    have hcounted := h.counts left s₁ hs₁
    refine (Step.Leads.of_primitive (.counts 1) ⟨_,hs₁⟩ ⟨left,hcounted⟩).bind ?_
    rintro _ _ ⟨⟩
    refine (reportIfDue_leads h hcounted).bind fun _ s₂ ⟨hs₂,hrests⟩ => ?_
    refine (Step.Leads.of_except _ ⟨left,hs₂⟩).bind ?_
    rintro text s₂ rfl
    have hlasts₂ : isSpent setting s₂ = false := by rwa [hrests.isSpent_eq]
    refine (score_leads h text hlasts₂ hs₂).bind fun found s₃ ⟨hs₃,hresults⟩ => ?_
    rw [hrests.results] at hresults
    cases found with
    | none => exact .of_pure ⟨left,hs₃⟩ ⟨hs₃,nofun⟩
    | some r =>
      refine .ite (fun _ => ?_) fun _ => .of_pure ⟨left,hs₃⟩ ⟨hs₃,nofun⟩
      have hfound := h.finds left s₃ r (by rwa [hresults]) hs₃
      refine (Step.Leads.of_primitive (.keeps [r]) ⟨left,hs₃⟩ ⟨left,hfound⟩).bind ?_
      rintro _ _ ⟨⟩
      exact .of_pure ⟨left,hfound⟩ ⟨hfound,nofun⟩

/-! ## Walks -/

omit h in
theorem deals_true : Step.Deals setting I 0 (pure true : Step γ Bool) :=
  fun left _ hs => .of_pure ⟨left,hs⟩ ⟨hs,nofun⟩

theorem deals_goOn {x y : Step γ Bool} {m n : ℕ} (hx : x.Deals setting I m)
    (hy : y.Deals setting I n) :
    Step.Deals setting I (m + n) (do if ← x then y else return false) := by
  intro left s hs
  rw [Nat.add_comm m,← Nat.add_assoc] at hs
  refine (hx (left + n) s hs).bind fun goOn s' ⟨hs',hend⟩ => ?_
  refine .ite (fun _ => hy left s' hs') fun hstop => ?_
  have hinterrupted := hend (by simpa using hstop)
  exact .of_pure ⟨_,hs'⟩ ⟨h.abandons left n s' hinterrupted hs',fun _ => hinterrupted⟩

theorem whileGoingOn_deals {f : ℕ → Step γ Bool} {g : ℕ → ℕ}
    (hf : ∀ i, (f i).Deals setting I (g i)) (start count : ℕ) :
    Step.Deals setting I ((List.range' start count).map g).sum (whileGoingOn f start count) := by
  induction count generalizing start with
  | zero => exact deals_true
  | succ count ih =>
    rw [List.range'_succ,List.map_cons,List.sum_cons]
    exact deals_goOn h (hf start) (ih (start + 1))

/-- A prefix is given up with all that begins with it when the search is interrupted. -/
theorem giveUp_leads {left n : ℕ} {s : State γ} (hinterrupted : Interrupted setting s)
    (hs : I (left + n) s) : Step.Leads setting (Underway I) (do return !(← endIfSpent setting)) s
      fun goOn s' => I left s' ∧ (goOn = false → Interrupted setting s') := by
  have hgiven := h.abandons left n s hinterrupted hs
  refine Step.Leads.bind (Q := fun _ s' => I left s' ∧ Interrupted setting s') ?_
    fun _ s' hs' => .of_pure ⟨left,hs'.1⟩ ⟨hs'.1,fun _ => hs'.2⟩
  refine (Step.Leads.of_get (Q := fun a s' => a = s ∧ s' = s) ⟨_,hs⟩ ⟨rfl,rfl⟩).bind ?_
  rintro _ _ ⟨rfl,rfl⟩
  refine .ite (fun _ => ?_) fun _ => .of_pure ⟨_,hs⟩ ⟨hgiven,hinterrupted⟩
  refine (report_leads h hgiven).bind fun _ s₁ ⟨hs₁,_,hreport⟩ => ?_
  exact .of_pure ⟨left,hs₁⟩ ⟨hs₁,hreport hinterrupted⟩

/-- A walk deals with all combinations below the chosen indices. -/
theorem walk_deals {k need : ℕ} {chosen : List ℕ} {start : ℕ} (hneed : chosen.length + need = k) :
    Step.Deals setting I (combinations elementNames.length need start).length
      (walk (visitor setting rule t : Visitor (Step γ)) elementNames.length k need chosen
        start) := by
  induction need generalizing chosen start with
  | zero => exact tryCombination_deals h _
  | succ need ih =>
    have hrest : Step.Deals setting I
        (combinations elementNames.length (need + 1) start).length
        (whileGoingOn (fun i => walk (visitor setting rule t : Visitor (Step γ))
          elementNames.length k need (i :: chosen) (i + 1)) start
            (elementNames.length - need - start)) := by
      simp only [combinations,List.length_flatMap,List.length_map]
      exact whileGoingOn_deals h (fun i => ih (by rw [List.length_cons]; omega)) _ _
    rw [walk]
    by_cases hwhole : 1 < k ∧ chosen.length = prefixLength k
    · rw [if_pos hwhole]
      intro left s hs
      refine (exhausted_leads h hs).bind ?_
      rintro stop s₁ ⟨hs₁,-,hend⟩
      refine .ite (fun hstop => ?_) fun hgoOn => ?_
      · exact giveUp_leads h (by simpa [hstop] using hend) hs₁
      · refine (prefixSurvives_leads h _ (by simpa [hgoOn] using hend) hs₁).bind ?_
        intro into s₂ hs₂
        refine .ite (fun _ => ?_) fun _ => hrest left s₂ hs₂
        rw [length_combinations,← binomial_eq_choose] at hs₂
        have hneed' : need + 1 = k - prefixLength k := by omega
        rw [hneed'] at hs₂
        have hleft := h.leavesOut left _ s₂ hs₂
        refine (Step.Leads.of_primitive (.leavesOut _) ⟨_,hs₂⟩ ⟨left,hleft⟩).bind ?_
        rintro _ _ ⟨⟩
        exact deals_true left _ hleft
    · rw [if_neg hwhole]
      exact hrest

omit h in
theorem combinationsPerPass_eq (strategy : Strategy) : combinationsPerPass strategy =
    ((sizes strategy).map fun k => (combinations elementNames.length k 0).length).sum := by
  unfold combinationsPerPass
  induction sizes strategy with
  | nil => rfl
  | cons k rest ih =>
    rw [List.foldr_cons,ih,List.map_cons,List.sum_cons,length_combinations,binomial_eq_choose,
      Nat.sub_zero]

theorem trySizes_deals (ks : List ℕ) :
    Step.Deals setting I (ks.map fun k => (combinations elementNames.length k 0).length).sum
      (trySizes setting rule t ks) := by
  induction ks with
  | nil => exact deals_true
  | cons k rest ih =>
    intro left s hs
    refine (finished_leads h hs).bind fun stop s₁ ⟨hs₁,hend⟩ => ?_
    refine .ite (fun hstop => ?_) fun _ => ?_
    · refine (report_leads h hs₁).bind fun _ s₂ ⟨hs₂,_,hreport⟩ => ?_
      have hinterrupted := hreport (by simpa [hstop] using hend)
      exact .of_pure ⟨_,hs₂⟩ ⟨h.abandons left _ s₂ hinterrupted hs₂,fun _ => hinterrupted⟩
    · rw [List.map_cons,List.sum_cons] at hs₁
      exact deals_goOn h (walk_deals h (Nat.zero_add k)) ih left s₁ hs₁

theorem tryPasses_deals (ps : List (ResultType × Rule)) :
    Step.Deals setting I (combinationsPerPass setting.params.strategy * ps.length)
      (tryPasses setting ps) := by
  induction ps with
  | nil => exact deals_true
  | cons x rest ih =>
    intro left s hs
    have hpass : Step.Deals setting I _
        (trySizes setting x.2 x.1 (sizes setting.params.strategy)) := trySizes_deals h _
    rw [← combinationsPerPass_eq] at hpass
    rw [List.length_cons,Nat.mul_add_one,Nat.add_comm (_ * _)] at hs
    have hrates := h.rates _ s ∅ hs
    refine (Step.Leads.of_primitive (.rates fun _ => ∅) ⟨_,hs⟩ ⟨_,hrates⟩).bind ?_
    rintro _ _ ⟨⟩
    exact deals_goOn h hpass ih left _ hrates

/-- An exhaustive search deals with all the combinations that it expects. -/
theorem Pace.exhaust_leads {s : State γ} (hs : Underway I s)
    (hstart : I (combinationsPerPass setting.params.strategy * (passes setting.params).length)
      { s with
        total := combinationsPerPass setting.params.strategy * (passes setting.params).length }) :
    (exhaust setting).Leads setting (Underway I) s fun _ s' => I 0 s' := by
  refine (Step.Leads.of_primitive (.expects _) hs ⟨_,hstart⟩).bind ?_
  rintro _ _ ⟨⟩
  refine (tryPasses_deals h (passes setting.params) 0 _ (by rwa [Nat.zero_add])).bind ?_
  rintro goOn s₁ ⟨hs₁,-⟩
  refine .ite (fun _ => ?_) fun _ => .of_pure ⟨0,hs₁⟩ hs₁
  exact (report_leads h hs₁).mono fun _ _ hreport => hreport.1

end Dealing

end DrawFormula.Search
