import DrawFormula.Proofs.Search.Prefixes
import DrawFormula.Proofs.Search.Scoring

/-! # What a walk asks and what it finds

A walk over combinations is recorded together with the search that it is part of: which prefixes it
asks for, which combinations it finds, and how many the search counts as left out. Where nothing
ends the search, the walk finds each combination with an accepted prefix once, asks once for each
prefix that a combination begins with, and leaves out what it does not find.
-/
namespace DrawFormula.Search

/-- What a walk has asked and what it has found. -/
structure Trail where
  asked : List (List ℕ)
  found : List (List ℕ)

variable {γ α β : Type} (setting : Setting) (accepts : List ℕ → Bool)

/-- Accepts prefixes as told and records what it meets; the search is asked whether to end, and
counts what is left out. -/
def recording : Visitor (StateT Trail (Step γ)) where
  exhausted := StateT.lift (exhausted setting)
  ended := StateT.lift (endIfSpent setting)
  goInto p := fun t => pure (accepts p,{ t with asked := t.asked ++ [p] })
  leaveOut n := StateT.lift (leaveOut n)
  visit c := fun t => pure (true,{ t with found := t.found ++ [c] })

/-- The state after so many questions whether to stop and with so many combinations left out. -/
def State.leaving (s : State γ) (questions left : ℕ) : State γ :=
  { s with
    asked := s.asked + questions, processed := s.processed + left, pruned := s.pruned + left }

theorem State.leaving_leaving (s : State γ) (questions questions' left left' : ℕ) :
    (s.leaving questions left).leaving questions' left' =
      s.leaving (questions + questions') (left + left') := by
  simp only [leaving,Nat.add_assoc]

theorem runFrom_run_bind {x : StateT Trail (Step γ) α} {a : α} {t t' : Trail} {s s' : State γ}
    (h : Step.runFrom (x.run t) s = (.ok (a,t'),s')) (f : α → StateT Trail (Step γ) β) :
    Step.runFrom ((x >>= f).run t) s = Step.runFrom ((f a).run t') s' := by
  rw [StateT.run_bind]
  exact runFrom_bind_of_ok h _

variable {setting} {n k : ℕ}

theorem runFrom_visits (cs : List (List ℕ)) (t : Trail) (s : State γ) :
    Step.runFrom ((cs.allM (recording setting accepts).visit).run t) s =
      (.ok (true,{ t with found := t.found ++ cs }),s) := by
  induction cs generalizing t with
  | nil =>
    rw [List.append_nil]
    rfl
  | cons c cs ih =>
    rw [List.allM,runFrom_run_bind rfl]
    refine (ih _).trans ?_
    rw [List.append_assoc]
    rfl

section Endless
variable (hstop : ∀ i, setting.stop i = false)
include hstop

theorem runFrom_tryPrefix {p : List ℕ} (hp : p.length = prefixLength k) (start : ℕ) (t : Trail)
    {s : State γ} (hspent : isSpent setting s = false) :
    let comps := completions n (k - prefixLength k) p start
    Step.runFrom ((tryPrefix (recording setting accepts) n k p start).run t) s =
      (.ok (true,⟨t.asked ++ [p],
          t.found ++ comps.filter fun c => accepts (c.take (prefixLength k))⟩),
        s.leaving 1 (comps.filter fun c => !accepts (c.take (prefixLength k))).length) := by
  intro comps
  let asked : State γ := { s with asked := s.asked + 1 }
  have hexhausted : Step.runFrom ((recording setting accepts).exhausted.run t) s =
      (.ok (false,t),asked) := by
    have hrun := runFrom_exhausted setting s
    rw [hstop,hspent,Bool.or_self] at hrun
    exact runFrom_bind_of_ok hrun _
  have hinto : Step.runFrom (((recording setting accepts).goInto p).run t) asked =
      (.ok (accepts p,{ t with asked := t.asked ++ [p] }),asked) := rfl
  rw [filter_completions hp start accepts,filter_completions hp start (fun q => !accepts q),
    tryPrefix,runFrom_run_bind hexhausted,if_neg (by simp),runFrom_run_bind hinto]
  cases accepts p with
  | true =>
    simp only [Bool.not_true,Bool.false_eq_true,if_false,if_true,runFrom_visits]
    rfl
  | false =>
    have hleft : binomial (n - start) (k - prefixLength k) = comps.length := by
      rw [binomial_eq_choose,length_completions]
    simp only [Bool.not_false,Bool.false_eq_true,if_false,if_true,hleft,List.append_nil]
    rfl

/-- Prefixes tried one after the other. -/
theorem runFrom_allM_tryPrefix {ps : List (List ℕ)} (hps : ∀ p ∈ ps, p.length = prefixLength k)
    (t : Trail) {s : State γ} (hspent : isSpent setting s = false) :
    let comps := ps.flatMap fun p => completions n (k - prefixLength k) p (nextIndex 0 p)
    Step.runFrom ((ps.allM fun p =>
        tryPrefix (recording setting accepts) n k p (nextIndex 0 p)).run t) s =
      (.ok (true,⟨t.asked ++ ps,
          t.found ++ comps.filter fun c => accepts (c.take (prefixLength k))⟩),
        s.leaving ps.length
          (comps.filter fun c => !accepts (c.take (prefixLength k))).length) := by
  intro comps
  induction ps generalizing t s with
  | nil =>
    simp only [comps,List.flatMap_nil,List.filter_nil,List.append_nil]
    rfl
  | cons p ps ih =>
    obtain ⟨hp,hrest⟩ := List.forall_mem_cons.mp hps
    rw [List.allM,runFrom_run_bind (runFrom_tryPrefix accepts hstop hp _ t hspent)]
    refine (ih hrest _ (s := s.leaving 1 _) hspent).trans ?_
    simp only [comps,List.flatMap_cons,List.filter_append,List.length_append,List.append_assoc,
      State.leaving_leaving,List.length_cons,List.singleton_append]
    rw [Nat.add_comm 1 ps.length]

end Endless

/-! ## What is found and what is left out -/

/-- Whether a list is an increasing one of `k` indices below `n`. -/
def IsChoice (n k : ℕ) (c : List ℕ) : Prop := c.length = k ∧ c.Pairwise (· < ·) ∧ ∀ i ∈ c, i < n

theorem mem_combinations_zero {c : List ℕ} : c ∈ combinations n k 0 ↔ IsChoice n k c := by
  simp only [mem_combinations,IsChoice,Nat.zero_le,true_and]

/-- A walk that nothing ends finds every combination with an accepted prefix, once and in
lexicographic order. It asks for every prefix that some combination begins with, once and in
lexicographic order, and the search counts as dealt with and as left out just the combinations that
are not found. -/
theorem walkAll_trail (hk : 2 ≤ k) (n : ℕ) (accepts : List ℕ → Bool)
    (hstop : ∀ i, setting.stop i = false) {s : State γ} (hspent : isSpent setting s = false) :
    ∃ (trail : Trail) (left : ℕ),
      Step.runFrom ((walkAll (recording setting accepts) n k).run ⟨[],[]⟩) s =
          (.ok (true,trail),s.leaving trail.asked.length left) ∧
      (∀ c, c ∈ trail.found ↔ IsChoice n k c ∧ accepts (c.take (prefixLength k)) = true) ∧
      trail.found.Pairwise (· < ·) ∧
      (∀ p, p ∈ trail.asked ↔ ∃ c, IsChoice n k c ∧ c.take (prefixLength k) = p) ∧
      trail.asked.Pairwise (· < ·) ∧
      left + trail.found.length = n.choose k := by
  have hhalf : 0 < prefixLength k ∧ prefixLength k + (k - prefixLength k) = k := by
    unfold prefixLength
    omega
  have hprefixes : ∀ p ∈ combinations (n - (k - prefixLength k)) (prefixLength k) 0,
      p.length = prefixLength k := fun p hp => (mem_combinations.mp hp).1
  have hrun := runFrom_allM_tryPrefix (n := n) accepts hstop hprefixes ⟨[],[]⟩ hspent
  rw [← walkAll_eq_allM _ n hk,← combinations_add,hhalf.2] at hrun
  simp only [List.nil_append] at hrun
  refine ⟨_,_,hrun,fun c => ?found,?foundOnce,fun p => ?asked,?askedOnce,?counted⟩
  case found => rw [List.mem_filter,mem_combinations_zero]
  case foundOnce => exact (combinations_increasing n k 0).filter _
  case asked =>
    rw [mem_prefixes hhalf.1,hhalf.2]
    simp only [mem_combinations_zero]
  case askedOnce => exact combinations_increasing _ _ 0
  case counted =>
    have hsplit := List.length_eq_length_filter_add
      (l := combinations n k 0) fun c => accepts (c.take (prefixLength k))
    rw [length_combinations] at hsplit
    exact (Nat.add_comm _ _).trans hsplit.symm

theorem walkAll_trail_skipping :
    let setting := overTwo []
    let s : State Unit := .initial () 0
    let accepts : List ℕ → Bool := fun p => p != [0,1]
    2 ≤ 3 ∧ (∀ i, setting.stop i = false) ∧ isSpent setting s = false ∧
      ∃ (trail : Trail) (left : ℕ),
        Step.runFrom ((walkAll (recording setting accepts) 5 3).run ⟨[],[]⟩) s =
          (.ok (true,trail),s.leaving trail.asked.length left) ∧
        [0,1] ∈ trail.asked ∧ [3,4] ∉ trail.asked ∧
        [0,1,2] ∉ trail.found ∧ [0,2,3] ∈ trail.found ∧
        left + trail.found.length = 10 := by
  intro setting s accepts
  have hstop : ∀ i, setting.stop i = false := fun _ => rfl
  have hspent : isSpent setting s = false := by decide
  obtain ⟨trail,left,hrun,hfound,-,hasked,-,hleft⟩ :=
    walkAll_trail (by decide : 2 ≤ 3) 5 accepts hstop hspent
  have hfirst : IsChoice 5 3 [0,1,2] := ⟨rfl,by decide,by decide⟩
  have hsecond : IsChoice 5 3 [0,2,3] := ⟨rfl,by decide,by decide⟩
  refine ⟨by decide,hstop,hspent,trail,left,hrun,(hasked _).mpr ⟨_,hfirst,rfl⟩,?_,?_,
    (hfound _).mpr ⟨hsecond,by decide⟩,hleft⟩
  · intro hlast
    obtain ⟨c,⟨hlength,hincreasing,hbelow⟩,hc⟩ := (hasked _).mp hlast
    -- The third index would have to be above 4.
    obtain ⟨a,b,i,rfl⟩ := List.length_eq_three.mp hlength
    obtain ⟨rfl,rfl⟩ : a = 3 ∧ b = 4 := by simpa [prefixLength] using hc
    have habove : 4 < i := by simp at hincreasing; omega
    have := hbelow i (by simp)
    omega
  · intro hskipped
    exact absurd ((hfound _).mp hskipped).2 (by decide)

end DrawFormula.Search
