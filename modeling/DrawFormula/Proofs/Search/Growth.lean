import DrawFormula.Proofs.Search.Honesty

/-! # What a search adds

A search takes back nothing that it found, and each of its messages tells as many formulas as it
holds, out of a number that the candidates dealt with do not exceed.
-/
namespace DrawFormula.Search
variable {γ : Type} {setting : Setting} {I : State γ → Prop}

/-- A score stays in a class of states in which what it changes does not matter. -/
theorem score_ensures (h : ∀ (s : State γ) (seen : Std.HashSet Text) (evaluations : ℕ)
      (cache : Element.Cache), I s →
        I { s with seen := seen, evaluations := evaluations, cache := cache }) (text : Text) :
    (score setting text : Step γ (Option Found)).Ensures I True fun found =>
      ∀ r ∈ found, True := by
  intro s hs
  obtain ⟨seen,evaluations,cache,hafter⟩ := after_score setting text s
  constructor
  · cases ((score setting text).runFrom s).1 with
    | error e => exact trivial
    | ok found => exact fun _ _ => trivial
  · rw [hafter]
    exact h s seen evaluations cache hs

/-- A contract on results and messages, for states in which nothing else matters. -/
theorem Contract.of_additions
    (hsame : ∀ s s' : State γ, s'.results = s.results → s'.progress = s.progress → I s → I s')
    (hfinds : ∀ (s : State γ) (found : List Found), I s → I { s with results := s.results ++ found })
    (hreports : ∀ s : State γ, I s → I { s with
      progress := s.progress ++
        [⟨s.processed,max s.total s.processed,s.results.length,s.results⟩] })
    (slack : Float) : Contract setting slack I True (fun _ => True) fun _ => True where
  draws s _ := hsame s _ rfl rfl
  asks s := hsame s _ rfl rfl
  reports := hreports
  counts s _ := hsame s _ rfl rfl
  leavesOut s _ := hsame s _ rfl rfl
  expects s _ := hsame s _ rfl rfl
  rates s _ := hsame s _ rfl rfl
  finds s found _ := hfinds s found
  scores text _ := score_ensures (fun s _ _ _ => hsame s _ rfl rfl) text

/-! ## Results -/

theorem growing_contract (setting : Setting) (before : List Found) (slack : Float) :
    Contract setting slack (fun s : State γ => before <+: s.results) True (fun _ => True)
      fun _ => True := by
  refine .of_additions ?_ ?_ (fun _ hs => hs) slack
  · intro s s' hresults _ hs
    rwa [hresults]
  · intro s found hs
    exact hs.trans (List.prefix_append s.results found)

/-! ## Messages -/

/-- Whether a message tells as many formulas as it holds, and no more candidates than expected. -/
def Progress.Sound (p : Progress) : Prop := p.found = p.results.length ∧ p.current ≤ p.total

theorem sound_contract (slack : Float) :
    Contract setting slack (fun s : State γ => ∀ p ∈ s.progress, p.Sound) True (fun _ => True)
      fun _ => True := by
  refine .of_additions ?_ (fun _ _ hs => hs) ?_ slack
  · intro s s' _ hprogress hs
    rwa [hprogress]
  · intro s hs
    rw [List.forall_mem_append,List.forall_mem_singleton]
    exact ⟨hs,rfl,Nat.le_max_right ..⟩

/-! ## Whole searches -/

variable [RandomSource γ]

theorem after_run (setting : Setting) (s : State γ) : (run setting s).2 =
    if setting.history.isEmpty then s else ((explore setting).runFrom s).2 := by
  unfold run
  split
  · rfl
  · rcases (explore setting).runFrom s with ⟨e | _,after⟩ <;> rfl

theorem sound_run {random : γ} {cacheSize : ℕ} {outcome : Except NumeralError (List Found)}
    {s : State γ} (h : run setting (.initial random cacheSize) = (outcome,s)) :
    ∀ p ∈ s.progress, p.Sound := by
  have hinitial : ∀ p ∈ (State.initial random cacheSize).progress, p.Sound := by
    simp [State.initial]
  have hafter : s = _ := (congrArg Prod.snd h).symm.trans (after_run setting _)
  rw [hafter]
  split
  · exact hinitial
  · exact Contract.explored sound_contract hinitial

theorem length_run {s s' : State γ} {found : List Found} (h : run setting s = (.ok found,s')) :
    found.length ≤ setting.params.maxCount := by
  unfold run at h
  split at h
  · cases h
    exact Nat.zero_le _
  · split at h
    · cases h
    · cases h
      exact (rank_spec setting.params _).2.2

end DrawFormula.Search
