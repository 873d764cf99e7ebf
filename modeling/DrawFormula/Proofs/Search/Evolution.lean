import DrawFormula.Proofs.Search.Building
import DrawFormula.Proofs.Search.Scoring

/-! # Evolutionary search

The states that an evolutionary search goes through, the candidates that it makes and the scores
that it gives depend on each other: a candidate is drawn in a state or mutated from a formula with a
score. In all of them every text that was tried is a sum of names with the settings of the search,
and each was tested once.
-/
namespace DrawFormula.Search
variable {γ : Type} [RandomSource γ] {setting : Setting}

/-- What comes up in an evolutionary search. -/
inductive Event (γ : Type) where
  | state (s : State γ)
  | candidate (text : Text)
  | score (r : Found)

/-- What can come up in an evolutionary search, whatever is drawn: the states between its steps, its
candidates and their scores. Steps that try no candidate leave alone what was seen. -/
inductive Evolves (setting : Setting) : Event γ → Prop where
  | initial (random : γ) (cacheSize : ℕ) : Evolves setting (.state (.initial random cacheSize))
  | other {s s' : State γ} : Evolves setting (.state s) → s'.seen = s.seen →
    s'.evaluations = s.evaluations → Evolves setting (.state s')
  | seeded {s : State γ} {x : ResultType × Text × Rule} {text : Text} :
    Evolves setting (.state s) → x ∈ seeds setting.params →
    ((fromSeed setting.params x.2.1 x.1 x.2.2).runFrom s).1 = .ok text →
    Evolves setting (.candidate text)
  | templated {s : State γ} {x : ResultType × Rule} {text : Text} :
    Evolves setting (.state s) → x ∈ templateSeeds setting.params →
    ((fromTemplate setting.params x.1 x.2).runFrom s).1 = .ok (some text) →
    Evolves setting (.candidate text)
  | mutated {s : State γ} {r : Found} {text : Text} :
    Evolves setting (.state s) → Evolves setting (.score r) →
    ((mutate setting.params r.formula).runFrom s).1 = .ok (some text) →
    Evolves setting (.candidate text)
  | free {s : State γ} {text : Text} : Evolves setting (.state s) →
    ((randomFormula setting.params).runFrom s).1 = .ok text → Evolves setting (.candidate text)
  | tried {s : State γ} {text : Text} : Evolves setting (.state s) →
    Evolves setting (.candidate text) → Evolves setting (.state ((score setting text).runFrom s).2)
  | scored {s : State γ} {text : Text} {r : Found} : Evolves setting (.state s) →
    Evolves setting (.candidate text) → ((score setting text).runFrom s).1 = .ok (some r) →
    Evolves setting (.score r)

/-! ## Runs -/

/-- Whether a state can come up and its results have scores that can. -/
def Evolved (setting : Setting) (s : State γ) : Prop :=
  Evolves setting (.state s) ∧ ∀ r ∈ s.results, Evolves (γ := γ) setting (.score r)

theorem Evolved.other {s s' : State γ} (h : Evolved setting s) (hseen : s'.seen = s.seen)
    (hevaluations : s'.evaluations = s.evaluations) (hresults : s'.results = s.results) :
    Evolved setting s' :=
  ⟨h.1.other hseen hevaluations,by rw [hresults]; exact h.2⟩

theorem evolved_contract : Contract setting 2 (Evolved setting : State γ → Prop) True
    (fun text => Evolves (γ := γ) setting (.candidate text))
    fun r => Evolves (γ := γ) setting (.score r) := by
  refine .of_scores (fun _ _ _ hseen hevaluations hresults hs =>
    hs.other hseen hevaluations hresults) (fun s found hfound hs => ?_) ?_
  · exact ⟨hs.1.other rfl rfl,List.forall_mem_append.mpr ⟨hs.2,fun r hr => (hfound r hr).1⟩⟩
  intro text hfit s hs
  have hresults : ((score setting text).runFrom s).2.results = s.results := by
    obtain ⟨seen,evaluations,cache,hafter⟩ := after_score setting text s
    rw [hafter]
  refine ⟨?_,hs.1.tried hfit,by rw [hresults]; exact hs.2⟩
  cases hr : ((score setting text).runFrom s).1 with
  | error e => exact trivial
  | ok found =>
    rintro r rfl
    exact hs.1.scored hfit hr

theorem evolved_breeding : Breeding setting (Evolved setting : State γ → Prop) True
    (fun text => Evolves (γ := γ) setting (.candidate text))
    fun r => Evolves (γ := γ) setting (.score r) where
  seeded x hx := by
    refine (fromSeed_ensures evolved_contract.draws (fun _ => trivial) (seed_known hx) _ _).outcome
      |>.mono ?_
    rintro text ⟨-,s,hs,hrun⟩
    exact hs.1.seeded hx hrun
  templated x hx := by
    refine (fromTemplate_ensures evolved_contract.draws (fun _ => trivial) _ _).outcome.mono ?_
    rintro _ ⟨-,s,hs,hrun⟩ text rfl
    exact hs.1.templated hx hrun
  mutated r hr := by
    refine (mutate_ensures evolved_contract.draws (fun _ => trivial) (fun _ _ => trivial)
      (Q := fun _ => True) (fun _ _ _ _ => trivial) fun _ _ _ _ => trivial).outcome.mono ?_
    rintro _ ⟨-,s,hs,hrun⟩ text rfl
    exact hs.1.mutated hr hrun
  free := by
    refine (randomFormula_ensures evolved_contract.draws fun _ => trivial).outcome.mono ?_
    rintro text ⟨-,s,hs,hrun⟩
    exact hs.1.free hrun
  results _ hs := hs.2

/-- An evolutionary search goes through such states only. -/
theorem evolves_evolve (random : γ) (cacheSize : ℕ) :
    Evolves setting (.state ((evolve setting).runFrom (.initial random cacheSize)).2) := by
  have hinitial : Evolved setting (.initial random cacheSize) :=
    ⟨.initial random cacheSize,by simp [State.initial]⟩
  exact (evolved_contract.evolve_ensures evolved_breeding _ hinitial).2.1

/-! ## Candidates -/

/-- Whether all the texts involved are bred and each that was seen was tested once. -/
def Event.Sound (p : Params) : Event γ → Prop
  | .state s => s.evaluations = s.seen.size ∧ ∀ text, s.seen.contains text = true → Bred p text
  | .candidate text => Bred p text
  | .score r => Bred p r.formula

section Soundness
variable (hl : 0 ≤ setting.params.left) (hr : 0 ≤ setting.params.right)
include hl hr

omit [RandomSource γ] in
theorem sound_score {s : State γ} {text : Text}
    (hs : (Event.state s).Sound setting.params) (ht : Bred setting.params text) :
    (Event.state ((score setting text).runFrom s).2).Sound setting.params := by
  rw [runFrom_score]
  split
  · exact hs
  · next hnew =>
    obtain ⟨t,-,hw,rule,names,hn,rfl⟩ := id ht
    obtain ⟨hcount,hseen⟩ := hs
    simp only [readLine_build hw hl hr hn]
    refine ⟨?_,fun text htext => ?_⟩
    · rw [Std.HashSet.size_insert,if_neg (by simpa using hnew),hcount]
    · rw [Std.HashSet.contains_insert,Bool.or_eq_true] at htext
      rcases htext with hself | hold
      · rwa [← eq_of_beq hself]
      · exact hseen text hold

omit [RandomSource γ] hl hr in
theorem formula_of_score {s : State γ} {text : Text} {r : Found}
    (h : ((score setting text).runFrom s).1 = .ok (some r)) : r.formula = text := by
  obtain ⟨line,b,-,-,rfl⟩ := exists_backtest_of_score h
  rfl

theorem Evolves.sound (hstrategy : setting.params.strategy ≠ .deep) {e : Event γ}
    (h : Evolves setting e) : e.Sound setting.params := by
  induction h with
  | initial random cacheSize =>
    refine ⟨rfl,fun text htext => ?_⟩
    rw [unseen_initial] at htext
    cases htext
  | other _ hseen hevaluations ih =>
    obtain ⟨hcount,hbred⟩ := ih
    exact ⟨by rw [hevaluations,hseen,hcount],by rwa [hseen]⟩
  | seeded _ hx hrun _ => exact (fromSeed_bred (fun _ _ h => h) (fun _ => trivial) hx).answer hrun
  | templated _ hx hrun _ =>
    exact (fromTemplate_bred (fun _ _ h => h) (fun _ => trivial) hstrategy hx).answer hrun _ rfl
  | mutated _ _ hrun _ ih =>
    exact (mutate_bred (fun _ _ h => h) (fun _ => trivial) hl hr ih).answer hrun _ rfl
  | free _ hrun _ => exact (randomFormula_bred (fun _ _ h => h) fun _ => trivial).answer hrun
  | tried _ _ ihs iht => exact sound_score hl hr ihs iht
  | scored _ _ hrun _ iht =>
    rw [Event.Sound,formula_of_score hrun]
    exact iht

/-- In every state of an evolutionary search as many texts were tested as were seen, and each of
them is read as a sum of names with the settings of the search. -/
theorem evolve_seen (hstrategy : setting.params.strategy ≠ .deep) :
    (∀ (random : γ) (cacheSize : ℕ),
      Evolves setting (.state ((evolve setting).runFrom (.initial random cacheSize)).2)) ∧
    ∀ s : State γ, Evolves setting (.state s) → s.evaluations = s.seen.size ∧
      ∀ text, s.seen.contains text = true → ∃ (f : Formula) (es : List Element),
        Formula.readLine text 0 = .ok ⟨f,text,0⟩ ∧
        (f.offset = setting.params.offset ∧ f.periods = setting.params.periods ∧
          f.left = setting.params.left ∧ f.right = setting.params.right) ∧
        f.resultType ∈ setting.params.resultTypes ∧ f.rule ∈ Rule.all ∧
        f.expression = Formula.sumOfNames es ∧ (∀ e ∈ es, e ∈ Element.all) ∧
        1 ≤ es.length ∧ es.length ≤ mostMutated setting.params.periods := by
  refine ⟨evolves_evolve,fun s hs => ?_⟩
  obtain ⟨hcount,hbred⟩ := hs.sound hl hr hstrategy
  refine ⟨hcount,fun text htext => ?_⟩
  obtain ⟨t,ht,hw,rule,names,hn,rfl⟩ := hbred text htext
  obtain ⟨es,hes,rfl⟩ := exists_elements hn.known
  have hrule : rule ∈ Rule.all := by cases rule <;> decide
  have hone : 1 ≤ es.length := by
    rw [Nat.one_le_iff_ne_zero,← List.length_map Element.name]
    exact fun h => hn.ne_nil (List.length_eq_zero_iff.mp h)
  exact ⟨_,es,readLine_build hw hl hr hn rule t,⟨rfl,rfl,rfl,rfl⟩,ht,hrule,rfl,hes,hone,
    by simpa using hn.length_le⟩

end Soundness

/-- A source of random numbers that always yields the least number. -/
@[reducible] def leastSource : RandomSource Unit := ⟨fun g => (0,g),fun _ h g => (⟨0,h⟩,g)⟩

theorem evolve_seen_seed :
    let setting := overTwo [Backtest.lowDraw 2 9 (by decide),Backtest.lowDraw 1 7 (by decide)]
    let text := build setting.params .sorted .tail (elementNames.take 1) none
    let _ : RandomSource Unit := leastSource
    ∃ s : State Unit, Evolves setting (.state s) ∧ s.seen.contains text = true ∧
      s.evaluations = s.seen.size ∧ ∃ (f : Formula) (es : List Element),
        Formula.readLine text 0 = .ok ⟨f,text,0⟩ ∧ f.expression = Formula.sumOfNames es ∧
          es.length ≤ 20 := by
  intro setting text source
  -- around the seed nothing but the seed is drawn, and the seed is used already
  have hseed : (.tail,elementNames.head elementNames_ne,.sorted) ∈ seeds setting.params := by decide
  have hrun : ((fromSeed setting.params (elementNames.head elementNames_ne) .tail .sorted :
      Step Unit Text).runFrom (.initial () 1)).1 = .ok text := by decide +kernel
  have hinitial : Evolves setting (.state (.initial () 1)) := .initial () 1
  have hs := hinitial.tried (hinitial.seeded hseed hrun)
  have hseen : ((score setting text).runFrom (.initial () 1)).2.seen.contains text = true := by
    rw [runFrom_score,unseen_initial]
    rcases Formula.readLine text 0 with (_ | _) | _ <;> exact Std.HashSet.contains_insert_self
  have hstrategy : setting.params.strategy ≠ .deep := by decide
  have hwidths : 0 ≤ setting.params.left ∧ 0 ≤ setting.params.right := by decide
  obtain ⟨-,hstates⟩ := evolve_seen (γ := Unit) hwidths.1 hwidths.2 hstrategy
  obtain ⟨hcount,htexts⟩ := hstates _ hs
  obtain ⟨f,es,hread,-,-,-,hsum,-,-,hlength⟩ := htexts text hseen
  exact ⟨_,hs,hseen,hcount,f,es,hread,hsum,hlength⟩

end DrawFormula.Search
