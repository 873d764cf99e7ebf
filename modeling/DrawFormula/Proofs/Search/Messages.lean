import DrawFormula.Proofs.Search.Growth
import DrawFormula.Proofs.Search.Exhaustion
import DrawFormula.Proofs.Search.Spending

/-! # The messages of a search

No message takes back what an earlier one told. An exhaustive search knows from the start how many
combinations there are, and it deals with all of them, by a score or by leaving them out, unless it
is interrupted.
-/
namespace DrawFormula.Search
variable {γ : Type} {setting : Setting}

/-! ## The order of messages -/

/-- The message that would be sent in a state. -/
def State.message (s : State γ) : Progress :=
  ⟨s.processed,max s.total s.processed,s.results.length,s.results⟩

/-- Whether a message tells no more than another one. -/
structure Progress.Before (p q : Progress) : Prop where
  current : p.current ≤ q.current
  total : p.total ≤ q.total
  found : p.found ≤ q.found
  results : p.results <+: q.results

theorem Progress.Before.refl (p : Progress) : p.Before p :=
  ⟨le_rfl,le_rfl,le_rfl,List.prefix_rfl⟩

theorem Progress.Before.trans {p q r : Progress} (hpq : p.Before q) (hqr : q.Before r) :
    p.Before r :=
  ⟨hpq.current.trans hqr.current,hpq.total.trans hqr.total,hpq.found.trans hqr.found,
    hpq.results.trans hqr.results⟩

/-- Whether the messages that were sent, and the one that would be sent next, are in order. -/
def Told (s : State γ) : Prop := (s.progress ++ [s.message]).Pairwise Progress.Before

namespace Told
variable {s s' : State γ}

theorem iff : Told s ↔ s.progress.Pairwise Progress.Before ∧
    ∀ p ∈ s.progress, p.Before s.message := by
  simp [Told,List.pairwise_append]

theorem advance (hs : Told s) (hprogress : s'.progress = s.progress)
    (h : s.message.Before s'.message) : Told s' := by
  obtain ⟨hordered,hbefore⟩ := iff.mp hs
  rw [iff,hprogress]
  exact ⟨hordered,fun p hp => (hbefore p hp).trans h⟩

theorem report (hs : Told s) : Told { s with progress := s.progress ++ [s.message] } := by
  refine iff.mpr ⟨hs,fun p hp => ?_⟩
  change p.Before s.message
  rcases List.mem_append.mp hp with hp | hp
  · exact (iff.mp hs).2 p hp
  · rw [List.mem_singleton.mp hp]
    exact .refl _

theorem process (hs : Told s) (n : ℕ) : Told { s with processed := s.processed + n } := by
  have hcurrent := Nat.le_add_right s.processed n
  exact hs.advance rfl ⟨hcurrent,max_le_max le_rfl hcurrent,le_rfl,List.prefix_rfl⟩

end Told

/-- The primitive steps of a search that is under way keep its messages in order. -/
theorem telling_conduct (slack : Float) :
    Conduct setting slack (Told : State γ → Prop) True (fun _ => True) fun _ => True where
  draws _ _ hs := hs
  asks _ hs := hs
  reports _ hs := hs.report
  counts _ n hs := hs.process n
  leavesOut _ n hs := hs.process n
  rates _ _ hs := hs
  finds s found _ hs := by
    have hgrows := List.prefix_append s.results found
    exact hs.advance rfl ⟨le_rfl,le_rfl,hgrows.length_le,hgrows⟩
  scores text _ := score_ensures (fun _ _ _ _ hs => hs) text

/-! ## The counts of an exhaustive search -/

theorem Interrupted.mono {s s' : State γ} (h : Interrupted setting s) (hasked : s.asked ≤ s'.asked)
    (hevaluations : s.evaluations ≤ s'.evaluations)
    (hresults : s.results.length ≤ s'.results.length) : Interrupted setting s' := by
  rcases h with ⟨n,hn,hstop⟩ | hspent | hfull
  · exact .inl ⟨n,hn.trans_le hasked,hstop⟩
  · refine .inr (.inl ?_)
    simp only [isSpent,limitReached,Bool.or_eq_true,Bool.and_eq_true,decide_eq_true_eq] at hspent ⊢
    exact hspent.imp_left fun hlimit => ⟨hlimit.1,hlimit.2.trans (by exact_mod_cast hevaluations)⟩
  · exact .inr (.inr (hfull.trans hresults))

/-- The counts of an exhaustive search that has so many combinations left. Those that it has dealt
with and those that are left are all that there are, unless the search is interrupted. -/
structure Counted (setting : Setting) (left : ℕ) (s : State γ) : Prop where
  pruned_le : s.pruned ≤ s.processed
  processed_le : s.processed + left ≤ s.total
  whole : Interrupted setting s ∨ s.processed + left = s.total

theorem Counted.process {left n pruned : ℕ} {s : State γ} (hs : Counted setting (left + n) s)
    (hpruned : pruned ≤ s.processed + n) :
    Counted setting left { s with processed := s.processed + n, pruned := pruned } := by
  obtain ⟨-,hprocessed,hwhole⟩ := hs
  rw [← Nat.add_assoc,Nat.add_right_comm] at hprocessed hwhole
  exact ⟨hpruned,hprocessed,hwhole⟩

theorem pace_of_counts (setting : Setting) :
    Pace setting (Counted setting : ℕ → State γ → Prop) where
  asks _ s hs := ⟨hs.pruned_le,hs.processed_le,
    hs.whole.imp_left fun h => h.mono (Nat.le_succ s.asked) le_rfl le_rfl⟩
  reports _ _ hs := ⟨hs.pruned_le,hs.processed_le,hs.whole⟩
  counts _ _ hs := hs.process (hs.pruned_le.trans (Nat.le_succ _))
  leavesOut _ n _ hs := hs.process (Nat.add_le_add_right hs.pruned_le n)
  rates _ _ _ hs := ⟨hs.pruned_le,hs.processed_le,hs.whole⟩
  finds _ s r _ hs := by
    have hgrows := (List.prefix_append s.results [r]).length_le
    exact ⟨hs.pruned_le,hs.processed_le,hs.whole.imp_left fun h => h.mono le_rfl le_rfl hgrows⟩
  scores _ s text _ hs := by
    have hspends := (evaluations_score setting text s).1
    obtain ⟨seen,evaluations,cache,hafter⟩ := after_score setting text s
    rw [hafter] at hspends ⊢
    exact ⟨hs.pruned_le,hs.processed_le,hs.whole.imp_left fun h => h.mono le_rfl hspends le_rfl⟩
  abandons _ _ _ hinterrupted hs :=
    ⟨hs.pruned_le,(Nat.add_le_add_left (Nat.le_add_right ..) _).trans hs.processed_le,
      .inl hinterrupted⟩

/-- What an exhaustive search expects stays as it is. -/
theorem total_exhaust (s : State γ) : ((exhaust setting).runFrom s).2.total =
    combinationsPerPass setting.params.strategy * (passes setting.params).length := by
  have hconduct : Conduct setting 1 (fun s : State γ => s.total =
      combinationsPerPass setting.params.strategy * (passes setting.params).length) True
        (fun _ => True) fun _ => True :=
    { draws := fun _ _ hs => hs
      asks := fun _ hs => hs
      reports := fun _ hs => hs
      counts := fun _ _ hs => hs
      leavesOut := fun _ _ hs => hs
      rates := fun _ _ hs => hs
      finds := fun _ _ _ hs => hs
      scores := fun text _ => score_ensures (fun _ _ _ _ hs => hs) text }
  exact (hconduct.exhaust_expecting combining_of_any rfl).2

/-! ## Whole searches -/

section Run
variable [RandomSource γ]

/-- The messages of a search are in order, and each of them is sound. An exhaustive search at no
moment has dealt with more combinations than there are, or left out more than it dealt with. If it
is not interrupted, it deals with every combination of all sizes, in all its passes. -/
theorem run_messages (setting : Setting) (random : γ) (cacheSize : ℕ) :
    let s := State.initial random cacheSize
    let s' := (run setting s).2
    s'.progress.Pairwise Progress.Before ∧ (∀ p ∈ s'.progress, p.Sound) ∧
    (setting.params.strategy = .deep →
      (explore setting).Stays setting (fun s => s.pruned ≤ s.processed ∧ s.processed ≤ s.total) s ∧
      (s'.pruned ≤ s'.processed ∧ s'.processed ≤ s'.total) ∧
      (setting.history ≠ [] → s'.total = ((sizes setting.params.strategy).map fun k =>
        (combinations elementNames.length k 0).length).sum * (passes setting.params).length) ∧
      ∀ found, (run setting s).1 = .ok found → ¬ Interrupted setting s' →
        s'.processed = s'.total) := by
  intro s s'
  have hafter : s' = if setting.history.isEmpty then s else ((explore setting).runFrom s).2 :=
    after_run setting s
  have htold : Told s' := by
    rw [hafter]
    split
    · exact List.pairwise_singleton _ _
    · exact Conduct.explored telling_conduct fun n => List.pairwise_singleton _ _
  refine ⟨(Told.iff.mp htold).1,sound_run rfl,fun hdeep => ?_⟩
  rw [explore_of_deep hdeep] at hafter ⊢
  have hleads := (pace_of_counts setting).exhaust_leads (s := s) ⟨0,le_rfl,le_rfl,.inr rfl⟩
    ⟨le_rfl,(Nat.zero_add _).le,.inr (Nat.zero_add _)⟩
  have hstays : (exhaust setting).Stays setting
      (fun s => s.pruned ≤ s.processed ∧ s.processed ≤ s.total) s :=
    hleads.1.mono fun _ ⟨_,hs⟩ => ⟨hs.pruned_le,(Nat.le_add_right ..).trans hs.processed_le⟩
  refine ⟨hstays,?_,fun hhistory => ?_,fun found hrun hgoesOn => ?_⟩
  · rw [hafter]
    split
    · exact ⟨le_rfl,le_rfl⟩
    · exact hstays.after
  · rw [hafter,if_neg (by simpa using hhistory),total_exhaust,combinationsPerPass_eq]
  · by_cases hhistory : setting.history.isEmpty
    · rw [hafter,if_pos hhistory]
      rfl
    · rw [if_neg hhistory] at hafter
      rw [run,if_neg hhistory,explore_of_deep hdeep] at hrun
      rcases hexhaust : (exhaust setting).runFrom s with ⟨e | _,after⟩
      · rw [hexhaust] at hrun
        cases hrun
      · rw [hexhaust] at hafter
        obtain rfl : s' = after := hafter
        exact (hleads.2 _ _ hexhaust).whole.resolve_left hgoesOn

theorem length_selectedOf_le (setting : Setting) (rule : Rule) (t : ResultType) :
    (selectedOf setting rule t (sizes setting.params.strategy)).length ≤
      combinationsPerPass setting.params.strategy := by
  rw [combinationsPerPass_eq,← List.length_flatMap]
  exact List.length_filterMap_le ..

/-- No more is selected in any passes than there are combinations. -/
theorem length_flatMap_selectedOf_le (setting : Setting) (ps : List (ResultType × Rule)) :
    (ps.flatMap fun x => selectedOf setting x.2 x.1 (sizes setting.params.strategy)).length ≤
      combinationsPerPass setting.params.strategy * ps.length := by
  induction ps with
  | nil => exact Nat.zero_le _
  | cons x rest ih =>
    rw [List.flatMap_cons,List.length_append,List.length_cons,Nat.mul_add_one,Nat.add_comm]
    exact Nat.add_le_add ih (length_selectedOf_le setting x.2 x.1)

/-- Where more formulas are asked for than there are combinations, all of these are dealt with. -/
theorem run_messages_twoDraws :
    let setting := { overTwo [Backtest.lowDraw 2 10 (by decide),Backtest.lowDraw 1 15 (by decide)]
      with params := .make 50 (10 ^ 17) .deep [.tail] 0 2 0 0 none none none }
    let random := Twister.ofTexts ["search".toList,['0']]
    setting.params.strategy = .deep ∧ setting.history ≠ [] ∧
      ∃ found s, run setting (.initial random 1) = (.ok found,s) ∧ ¬ Interrupted setting s ∧
        s.progress.Pairwise Progress.Before ∧ s.processed = 11329215726016590 := by
  intro setting random
  have hperiods : (setting.history.map Draw.period).Nodup := by decide
  have hendless : Endless setting := ⟨fun _ => rfl,rfl,rfl⟩
  have hwritable : setting.params.Writable := by
    unfold Params.Writable
    decide
  obtain ⟨s,hexhaust,hresults⟩ := exhaust_results (.of_nodup hperiods) rfl (by decide)
    (by decide : 0 ≤ setting.params.left) (by decide : 0 ≤ setting.params.right) hwritable
    hendless random 1
  have hrun : run setting (.initial random 1) = (.ok (rank setting.params s.results),s) := by
    rw [run,if_neg (by decide),explore_of_deep rfl,hexhaust]
  have hcount : combinationsPerPass setting.params.strategy * (passes setting.params).length =
      11329215726016590 := by decide +kernel
  have hgoesOn : ¬ Interrupted setting s := by
    rintro (⟨n,-,hstop⟩ | hspent | hfull)
    · exact Bool.false_ne_true hstop
    · exact Bool.false_ne_true hspent
    · have hselected := (length_flatMap_selectedOf_le setting _).trans_eq hcount
      change (allSelected setting).length ≤ _ at hselected
      have hmost : setting.params.maxCount = 10 ^ 17 := by decide
      rw [hresults,List.length_take] at hfull
      omega
  obtain ⟨hordered,-,hdeep⟩ := run_messages setting random 1
  obtain ⟨-,-,htotal,hwhole⟩ := hdeep rfl
  have hprocessed := (hwhole _ (congrArg Prod.fst hrun) (by rwa [hrun])).trans (htotal nofun)
  rw [hrun,← combinationsPerPass_eq,hcount] at hprocessed
  rw [hrun] at hordered
  exact ⟨rfl,nofun,_,s,hrun,hgoesOn,hordered,hprocessed⟩

end Run

end DrawFormula.Search
