import DrawFormula.Proofs.Search.Combinations
import DrawFormula.Proofs.Search.Honesty

/-! # Exhaustive search

An exhaustive search finds what is selected from the plain list of all combinations, cut to the
number that is asked for. A combination is selected if the hit rate of its prefix can reach the
target and its own hit rate is near the target, both by a backtest alone and without a memo.
-/
namespace DrawFormula.Search
variable {γ : Type} (setting : Setting)

/-! ## The plain list -/

/-- The score of a text by a backtest alone and without a memo. -/
def tested (text : Text) : Option Found :=
  match Formula.readLine text 0 with
  | .error _ => none
  | .ok line => (Backtest.runAlone line setting.history setting.anchor 0).toOption.map
    (Found.ofBacktest text)

/-- Whether the hit rate of a sum of names can grow into the tolerance of the target. -/
def reaches (rule : Rule) (t : ResultType) (names : List Text) : Bool :=
  (tested setting (build setting.params rule t names none)).any fun r =>
    canReach setting.params (r.hitRate * 100)

/-- The score of a combination whose prefix can reach the target, if it is near the target. -/
def selected (rule : Rule) (t : ResultType) (indices : List ℕ) : Option Found :=
  if reaches setting rule t (namesAt (indices.take (prefixLength indices.length))) then
    (tested setting (build setting.params rule t (namesAt indices) none)).filter
      fun r => within setting.params r 1
  else none

/-- What is selected for a result type and a rule, size after size. -/
def selectedOf (rule : Rule) (t : ResultType) (ks : List ℕ) : List Found :=
  (ks.flatMap fun k => combinations elementNames.length k 0).filterMap (selected setting rule t)

/-- What is selected from all combinations, for one result type and rule after the other. -/
def allSelected : List Found :=
  (passes setting.params).flatMap fun x =>
    selectedOf setting x.2 x.1 (sizes setting.params.strategy)

variable {setting} {rule : Rule} {t : ResultType}

theorem Verified.tested_eq {r : Found} (h : Verified setting r) :
    tested setting r.formula = some r := by
  obtain ⟨line,b,hread,hb,hr⟩ := h
  unfold tested
  rw [hread]
  dsimp only
  rw [hb]
  exact congrArg some hr.symm

/-! ## Steps that try nothing -/

/-- Whether a step left alone the memo, what was seen, the results and the rates. -/
structure Calm (s s' : State γ) : Prop where
  cache : s'.cache = s.cache
  seen : s'.seen = s.seen
  results : s'.results = s.results
  rates : s'.rates = s.rates

theorem Calm.refl (s : State γ) : Calm s s := ⟨rfl,rfl,rfl,rfl⟩

theorem Calm.trans {s s' s'' : State γ} (h : Calm s s') (h' : Calm s' s'') : Calm s s'' :=
  ⟨h'.cache.trans h.cache,h'.seen.trans h.seen,h'.results.trans h.results,h'.rates.trans h.rates⟩

/-- Whether nothing ends a search before its time. -/
structure Endless (setting : Setting) : Prop where
  stop : ∀ n, setting.stop n = false
  evaluationLimit : setting.evaluationLimit = 0
  overtime : setting.overtime = false

theorem exhausted_yields (h : Endless setting) (s : State γ) :
    (exhausted setting).Yields s fun stop s' => stop = false ∧ Calm s s' := by
  have hspent : isSpent setting s = false := by
    simp [isSpent,limitReached,h.evaluationLimit,h.overtime]
  refine ⟨_,_,runFrom_exhausted setting s,?_,rfl,rfl,rfl,rfl⟩
  rw [h.stop,hspent,Bool.or_self]

theorem finished_yields (h : Endless setting) (s : State γ) :
    (finished setting).Yields s fun stop s' =>
      (stop = true ↔ setting.params.maxCount ≤ s.results.length) ∧ Calm s s' := by
  refine (Step.Yields.of_get (Q := fun a s' => a = s ∧ s' = s) ⟨rfl,rfl⟩).bind ?_
  rintro _ _ ⟨rfl,rfl⟩
  refine .ite (fun hfull => .of_pure ⟨by simpa using hfull,.refl _⟩) fun hroom => ?_
  refine (exhausted_yields h _).mono ?_
  rintro _ s' ⟨rfl,hcalm⟩
  exact ⟨by simpa using hroom,hcalm⟩

theorem report_yields (s : State γ) : report.Yields s fun _ s' => Calm s s' :=
  .of_modify ⟨rfl,rfl,rfl,rfl⟩

theorem countProcessed_yields (n : ℕ) (s : State γ) :
    (countProcessed n).Yields s fun _ s' => Calm s s' :=
  .of_modify ⟨rfl,rfl,rfl,rfl⟩

theorem leaveOut_yields (n : ℕ) (s : State γ) : (leaveOut n).Yields s fun _ s' => Calm s s' :=
  .of_modify ⟨rfl,rfl,rfl,rfl⟩

theorem reportIfDue_yields (s : State γ) :
    (reportIfDue setting).Yields s fun _ s' => Calm s s' := by
  refine (Step.Yields.of_get (Q := fun a s' => a = s ∧ s' = s) ⟨rfl,rfl⟩).bind ?_
  rintro _ _ ⟨rfl,rfl⟩
  exact .ite (fun _ => report_yields _) fun _ => .of_pure (.refl _)

theorem compose_yields (hw : setting.params.Writable) (names : List Text) (s : State γ) :
    (compose setting.params rule t names).Yields s fun text s' =>
      text = build setting.params rule t names none ∧ s' = s := by
  refine ⟨_,s,?_,rfl,rfl⟩
  rw [compose,Formula.written,if_pos (isWritable_sumWith.mpr hw)]
  rfl

/-! ## Names at indices -/

theorem nodup_elementNames : elementNames.Nodup := by decide +kernel

theorem namesAt_cons {i : ℕ} (h : i < elementNames.length) (rest : List ℕ) :
    namesAt (i :: rest) = elementNames[i] :: namesAt rest := by
  simp [namesAt,List.getElem?_eq_getElem h]

theorem length_namesAt {l : List ℕ} (h : ∀ i ∈ l, i < elementNames.length) :
    (namesAt l).length = l.length := by
  induction l with
  | nil => rfl
  | cons i rest ih =>
    obtain ⟨hi,hrest⟩ := List.forall_mem_cons.mp h
    rw [namesAt_cons hi,List.length_cons,ih hrest,List.length_cons]

theorem namesAt_injective {l l' : List ℕ} (h : ∀ i ∈ l, i < elementNames.length)
    (h' : ∀ i ∈ l', i < elementNames.length) (heq : namesAt l = namesAt l') : l = l' := by
  induction l generalizing l' with
  | nil =>
    have hlength := length_namesAt h'
    rw [← heq] at hlength
    exact (List.length_eq_zero_iff.mp hlength.symm).symm
  | cons i rest ih =>
    obtain ⟨hi,hrest⟩ := List.forall_mem_cons.mp h
    cases l' with
    | nil =>
      rw [namesAt_cons hi] at heq
      cases heq
    | cons j rest' =>
      obtain ⟨hj,hrest'⟩ := List.forall_mem_cons.mp h'
      rw [namesAt_cons hi,namesAt_cons hj,List.cons.injEq] at heq
      rw [nodup_elementNames.getElem_inj_iff.mp heq.1,ih hrest hrest' heq.2]

theorem take_take_append {α : Type} (n : ℕ) (xs ys : List α) :
    (xs.take n ++ ys).take n = (xs ++ ys).take n := by
  simp only [List.take_append,List.take_take,List.length_take,Nat.min_self]
  congr 2
  omega

/-! ## Prefixes -/

/-- The most names of a prefix. -/
def longestPrefix : ℕ := 8

/-- Whether a search is in the midst of a result type and a rule: the memo agrees with the history,
there are no more results than asked for, and the rates are those of the prefixes seen. -/
structure Ready (setting : Setting) (rule : Rule) (t : ResultType) (s : State γ) : Prop where
  faithful : s.cache.Faithful setting.history
  room : s.results.length ≤ setting.params.maxCount
  rates : ∀ names, Names longestPrefix names → s.rates[List.intercalate ['+'] names]? =
    if s.seen.contains (build setting.params rule t names none) then
      some ((tested setting (build setting.params rule t names none)).map fun r => r.hitRate * 100)
    else none

theorem Ready.calm {s s' : State γ} (h : Ready setting rule t s) (hcalm : Calm s s') :
    Ready setting rule t s' :=
  ⟨by rw [hcalm.cache]; exact h.faithful,by rw [hcalm.results]; exact h.room,
    by rw [hcalm.rates,hcalm.seen]; exact h.rates⟩

theorem intercalate_injective {names names' : List Text} (h : ∀ e ∈ names, e ∈ elementNames)
    (h' : ∀ e ∈ names', e ∈ elementNames)
    (heq : List.intercalate ['+'] names = List.intercalate ['+'] names') : names = names' := by
  rw [← terms_intercalate h,← terms_intercalate h',heq]

section Runs
variable (hc : Element.Consistent setting.history) (hl : 0 ≤ setting.params.left)
  (hr : 0 ≤ setting.params.right) (hw : setting.params.Writable)
include hc hl hr hw

omit hw in
theorem score_yields {most : ℕ} {text : Text} (h : BuiltFor setting.params t most text)
    {s : State γ} (hs : s.cache.Faithful setting.history) (hnew : s.seen.contains text = false) :
    (score setting text).Yields s fun found s' => ∃ (r : Found) (cache : Element.Cache),
      found = some r ∧ tested setting text = some r ∧ cache.Faithful setting.history ∧
        s' = { s with
          seen := s.seen.insert text, evaluations := s.evaluations + 1, cache := cache } := by
  obtain ⟨r,cache,rfl,hverified,hcache,hrun⟩ := runFrom_score_built hc hl hr h hs
  rw [hnew,if_neg (by simp)] at hrun
  exact ⟨_,_,hrun,r,cache,rfl,hverified.tested_eq,hcache,rfl⟩

/-- A prefix is scored once, and its rate is remembered for the sizes to come. -/
theorem prefixSurvives_yields {names : List Text} (hnames : Names longestPrefix names)
    {s : State γ} (hs : Ready setting rule t s) :
    (prefixSurvives setting rule t names).Yields s fun into s' =>
      into = reaches setting rule t names ∧ Ready setting rule t s' ∧ s'.results = s.results ∧
        ∀ text, s'.seen.contains text = true → s.seen.contains text = true ∨
          text = build setting.params rule t names none := by
  have hrate := hs.rates names hnames
  generalize htext : build setting.params rule t names none = text at hrate
  have hbuilt : BuiltFor setting.params t longestPrefix text := ⟨hw,rule,names,hnames,htext.symm⟩
  have hreaches : ∀ r, tested setting text = some r →
      canReach setting.params (r.hitRate * 100) = reaches setting rule t names := by
    intro r hr
    rw [reaches,htext,hr]
    rfl
  refine (compose_yields hw names s).bind ?_
  rintro _ s ⟨rfl,rfl⟩
  rw [htext]
  refine (Step.Yields.of_get (Q := fun a s' => a = s ∧ s' = s) ⟨rfl,rfl⟩).bind ?_
  rintro _ _ ⟨rfl,rfl⟩
  dsimp only
  split at hrate
  · obtain ⟨r,rfl,hverified⟩ := exists_verified hl hr hbuilt
    rw [hrate,hverified.tested_eq]
    exact .of_pure ⟨hreaches r hverified.tested_eq,hs,rfl,fun text htext => .inl htext⟩
  · next hnew =>
    rw [hrate]
    refine (score_yields hc hl hr hbuilt hs.faithful (by simpa using hnew)).bind ?_
    rintro _ _ ⟨r,cache,rfl,htested,hcache,rfl⟩
    refine (Step.Yields.of_modify (Q := fun _ s' => s' = _) rfl).bind ?_
    rintro _ _ rfl
    refine .of_pure ⟨hreaches r htested,⟨hcache,hs.room,fun names' hnames' => ?_⟩,rfl,?_⟩
    · simp only [Std.HashMap.getElem?_insert,Std.HashSet.contains_insert,hs.rates names' hnames']
      by_cases hsame : names = names'
      · subst hsame
        simp [htext,htested]
      · have hkey : ¬ List.intercalate ['+'] names = List.intercalate ['+'] names' :=
          fun heq => hsame (intercalate_injective hnames.known hnames'.known heq)
        have hother : ¬ text = build setting.params rule t names' none := by
          rw [← htext]
          exact fun heq => hsame (build_injective hw hl hr hnames hnames' heq).2.2
        simp [hkey,hother]
    · intro text' htext'
      rw [Std.HashSet.contains_insert,Bool.or_eq_true] at htext'
      exact htext'.symm.imp_right fun hself => (eq_of_beq hself).symm

end Runs

/-! ## Combinations one after the other -/

/-- Whether a list of indices is longer than a prefix. -/
structure IsCombination (indices : List ℕ) : Prop where
  longer : longestPrefix < indices.length
  below : ∀ i ∈ indices, i < elementNames.length

theorem IsCombination.names {indices : List ℕ} (h : IsCombination indices) :
    Names indices.length (namesAt indices) := by
  refine Contract.names_namesAt ?_ le_rfl h.below
  rintro rfl
  exact absurd h.longer (by decide)

/-- The text of a combination is not that of a prefix. -/
theorem IsCombination.build_ne (hl : 0 ≤ setting.params.left) (hr : 0 ≤ setting.params.right)
    (hw : setting.params.Writable) {c : List ℕ} (hc : IsCombination c) {names : List Text}
    (hnames : Names longestPrefix names) : build setting.params rule t (namesAt c) none ≠
      build setting.params rule t names none := by
  intro heq
  have hsame := (build_injective hw hl hr hc.names hnames heq).2.2
  have hlonger := hc.longer
  rw [← length_namesAt hc.below,hsame] at hlonger
  exact absurd hnames.length_le (by omega)

theorem Ready.combine {s : State γ} (h : Ready setting rule t s) (hl : 0 ≤ setting.params.left)
    (hr : 0 ≤ setting.params.right) (hw : setting.params.Writable) {c : List ℕ}
    (hc : IsCombination c) {cache : Element.Cache} (hcache : cache.Faithful setting.history) :
    Ready setting rule t { s with
      seen := s.seen.insert (build setting.params rule t (namesAt c) none),
      evaluations := s.evaluations + 1, cache := cache } := by
  refine ⟨hcache,h.room,fun names hnames => ?_⟩
  simp [Std.HashSet.contains_insert,h.rates names hnames,hc.build_ne hl hr hw hnames]

/-- What the search is to do with combinations: it adds what is selected of them to the results,
cut to the number that is asked for, and sees no other texts than theirs and those of prefixes. -/
structure Advance (setting : Setting) (rule : Rule) (t : ResultType) (cs : List (List ℕ))
    (s s' : State γ) : Prop where
  ready : Ready setting rule t s'
  results : s'.results =
    (s.results ++ cs.filterMap (selected setting rule t)).take setting.params.maxCount
  seen : ∀ text, s'.seen.contains text = true → s.seen.contains text = true ∨
    (∃ names, Names longestPrefix names ∧ text = build setting.params rule t names none) ∨
      ∃ c ∈ cs, text = build setting.params rule t (namesAt c) none

/-- Whether a step tries combinations that were not tried before, and ends the search only when
enough is found. -/
def Tries (setting : Setting) (rule : Rule) (t : ResultType) (cs : List (List ℕ))
    (step : Step γ Bool) : Prop :=
  ∀ s, Ready setting rule t s →
    (∀ c ∈ cs, s.seen.contains (build setting.params rule t (namesAt c) none) = false) →
      step.Yields s fun goOn s' => Advance setting rule t cs s s' ∧
        (goOn = false → s'.results.length = setting.params.maxCount)

namespace Advance
variable {cs : List (List ℕ)} {s s' : State γ}

theorem of_none (h : Ready setting rule t s) (h' : Ready setting rule t s')
    (hresults : s'.results = s.results)
    (hseen : ∀ text, s'.seen.contains text = true → s.seen.contains text = true ∨
      ∃ names, Names longestPrefix names ∧ text = build setting.params rule t names none)
    (hcs : cs.filterMap (selected setting rule t) = []) : Advance setting rule t cs s s' := by
  refine ⟨h',?_,fun text htext => (hseen text htext).imp_right .inl⟩
  rw [hcs,List.append_nil,List.take_of_length_le h.room,hresults]

theorem of_full (h : Ready setting rule t s) (hfull : setting.params.maxCount ≤ s.results.length)
    (hcalm : Calm s s') : Advance setting rule t cs s s' ∧
      s'.results.length = setting.params.maxCount := by
  have hlength := Nat.le_antisymm h.room hfull
  refine ⟨⟨h.calm hcalm,?_,fun text htext => .inl ?_⟩,by rw [hcalm.results,hlength]⟩
  · rw [List.take_left' hlength,hcalm.results]
  · rwa [← hcalm.seen]

/-- No combination but those that are tried is seen thereby. -/
theorem unseen (h : Advance setting rule t cs s s') (hl : 0 ≤ setting.params.left)
    (hr : 0 ≤ setting.params.right) (hw : setting.params.Writable)
    (hcs : ∀ c ∈ cs, IsCombination c) {c : List ℕ} (hc : IsCombination c) (hnot : c ∉ cs)
    (hnew : s.seen.contains (build setting.params rule t (namesAt c) none) = false) :
    s'.seen.contains (build setting.params rule t (namesAt c) none) = false := by
  rw [Bool.eq_false_iff] at hnew ⊢
  intro hseen
  rcases h.seen _ hseen with hold | ⟨names,hnames,heq⟩ | ⟨c',hc',heq⟩
  · exact hnew hold
  · exact hc.build_ne hl hr hw hnames heq
  · have hsame := (build_injective hw hl hr hc.names (hcs c' hc').names heq).2.2
    rw [namesAt_injective hc.below (hcs c' hc').below hsame] at hnot
    exact hnot hc'

end Advance

namespace Tries
variable {cs cs' : List (List ℕ)} {x y : Step γ Bool}

theorem of_nil : Tries setting rule t [] (pure true : Step γ Bool) :=
  fun _ hs _ => .of_pure ⟨.of_none hs hs rfl (fun _ htext => .inl htext) rfl,nofun⟩

theorem append (hl : 0 ≤ setting.params.left) (hr : 0 ≤ setting.params.right)
    (hw : setting.params.Writable) (hx : Tries setting rule t cs x)
    (hy : Tries setting rule t cs' y) (hcs : ∀ c ∈ cs ++ cs', IsCombination c)
    (hnodup : (cs ++ cs').Nodup) : Tries setting rule t (cs ++ cs') do
      if ← x then y else return false := by
  intro s hs hnew
  obtain ⟨hfirst,hrest⟩ := List.forall_mem_append.mp hcs
  obtain ⟨hnewFirst,hnewRest⟩ := List.forall_mem_append.mp hnew
  refine (hx s hs hnewFirst).bind ?_
  rintro goOn s₁ ⟨hadvance,hend⟩
  refine .ite (fun _ => ?_) fun hstop => .of_pure ?_
  · -- the first part leaves unseen what the second part is to try
    have hnewThen : ∀ c ∈ cs',
        s₁.seen.contains (build setting.params rule t (namesAt c) none) = false := fun c hc =>
      hadvance.unseen hl hr hw hfirst (hrest c hc)
        (fun hmem => List.disjoint_of_nodup_append hnodup hmem hc) (hnewRest c hc)
    refine (hy s₁ hadvance.ready hnewThen).mono ?_
    rintro goOn' s₂ ⟨hadvance',hend'⟩
    refine ⟨⟨hadvance'.ready,?_,fun text htext => ?_⟩,hend'⟩
    · rw [hadvance'.results,hadvance.results,List.filterMap_append,← List.append_assoc]
      exact take_take_append _ _ _
    · rcases hadvance'.seen text htext with hold | hprefix | ⟨c,hc,heq⟩
      · refine (hadvance.seen text hold).imp_right fun h => h.imp_right ?_
        rintro ⟨c,hc,heq⟩
        exact ⟨c,List.mem_append_left _ hc,heq⟩
      · exact .inr (.inl hprefix)
      · exact .inr (.inr ⟨c,List.mem_append_right _ hc,heq⟩)
  · have hfull := hend (by simpa using hstop)
    refine ⟨⟨hadvance.ready,?_,fun text htext => ?_⟩,fun _ => hfull⟩
    · rw [hadvance.results,List.filterMap_append,← List.append_assoc]
      rw [hadvance.results,List.length_take] at hfull
      exact (List.take_append_of_le_length (by omega)).symm
    · refine (hadvance.seen text htext).imp_right fun h => h.imp_right ?_
      rintro ⟨c,hc,heq⟩
      exact ⟨c,List.mem_append_left _ hc,heq⟩

/-- A prefix that was scored before makes no difference. -/
theorem later (hl : 0 ≤ setting.params.left) (hr : 0 ≤ setting.params.right)
    (hw : setting.params.Writable) (hx : Tries setting rule t cs x)
    (hcs : ∀ c ∈ cs, IsCombination c) {s s₁ : State γ} (hs₁ : Ready setting rule t s₁)
    (hresults : s₁.results = s.results)
    (hseen : ∀ text, s₁.seen.contains text = true → s.seen.contains text = true ∨
      ∃ names, Names longestPrefix names ∧ text = build setting.params rule t names none)
    (hnew : ∀ c ∈ cs, s.seen.contains (build setting.params rule t (namesAt c) none) = false) :
    x.Yields s₁ fun goOn s' => Advance setting rule t cs s s' ∧
      (goOn = false → s'.results.length = setting.params.maxCount) := by
  have hstill : ∀ c ∈ cs,
      s₁.seen.contains (build setting.params rule t (namesAt c) none) = false := by
    intro c hc
    rw [Bool.eq_false_iff]
    intro hold
    rcases hseen _ hold with hold | ⟨names,hnames,heq⟩
    · exact Bool.eq_false_iff.mp (hnew c hc) hold
    · exact (hcs c hc).build_ne hl hr hw hnames heq
  refine (hx s₁ hs₁ hstill).mono ?_
  rintro goOn s' ⟨hadvance,hend⟩
  refine ⟨⟨hadvance.ready,by rw [hadvance.results,hresults],fun text htext => ?_⟩,hend⟩
  rcases hadvance.seen text htext with hold | hnow
  · exact (hseen text hold).imp_right .inl
  · exact .inr hnow

end Tries

section Walks
variable (he : Endless setting) (hc : Element.Consistent setting.history)
  (hl : 0 ≤ setting.params.left) (hr : 0 ≤ setting.params.right) (hw : setting.params.Writable)
include he hc hl hr hw

/-- A combination whose prefix can reach the target is selected by its own score. -/
theorem tryCombination_tries {c : List ℕ} (hcomb : IsCombination c)
    (hreach : reaches setting rule t (namesAt (c.take (prefixLength c.length))) = true) :
    Tries setting rule t [c] (tryCombination setting rule t c : Step γ Bool) := by
  intro s hs hnew
  have hunseen := hnew c (by simp)
  refine (finished_yields he s).bind fun stop s₁ ⟨hstop,hcalm⟩ => ?_
  refine .ite (fun hfull => ?_) fun hroom => ?_
  · refine (report_yields s₁).bind fun _ s₂ hreport => .of_pure ?_
    obtain ⟨hadvance,hlength⟩ := Advance.of_full hs (hstop.mp hfull) (hcalm.trans hreport)
    exact ⟨hadvance,fun _ => hlength⟩
  · refine (countProcessed_yields 1 s₁).bind fun _ s₂ hcount => ?_
    refine (reportIfDue_yields s₂).bind fun _ s₃ hreport => ?_
    replace hcalm := (hcalm.trans hcount).trans hreport
    have hs₃ := hs.calm hcalm
    refine (compose_yields hw (namesAt c) s₃).bind ?_
    rintro _ s₃ ⟨rfl,rfl⟩
    have hbuilt : BuiltFor setting.params t c.length
      (build setting.params rule t (namesAt c) none) := ⟨hw,rule,_,hcomb.names,rfl⟩
    refine (score_yields hc hl hr hbuilt hs₃.faithful (by rwa [hcalm.seen])).bind ?_
    rintro _ s₄ ⟨r,cache,rfl,htested,hcache,rfl⟩
    dsimp only
    have hafter := hs₃.combine hl hr hw hcomb hcache
    have hseen : ∀ text', (s₃.seen.insert
        (build setting.params rule t (namesAt c) none)).contains text' = true →
          s.seen.contains text' = true ∨ text' = build setting.params rule t (namesAt c) none := by
      intro text' htext'
      rw [Std.HashSet.contains_insert,Bool.or_eq_true,hcalm.seen] at htext'
      exact htext'.symm.imp_right fun hself => (eq_of_beq hself).symm
    have hselected : selected setting rule t c =
        if within setting.params r 1 then some r else none := by
      rw [selected,if_pos hreach,htested,Option.filter_some]
    have hlt : s.results.length < setting.params.maxCount := by
      rw [← Nat.not_le]
      exact fun h => hroom (hstop.mpr h)
    refine .ite (fun hnear => ?_) fun hnear => .of_pure ⟨⟨hafter,?_,fun text' htext' => ?_⟩,nofun⟩
    · refine (Step.Yields.of_modify (Q := fun _ s' => s' = _) rfl).bind ?_
      rintro _ _ rfl
      refine .of_pure ⟨⟨⟨hcache,?_,hafter.rates⟩,?_,fun text' htext' => ?_⟩,nofun⟩
      · simp only [hcalm.results,List.length_append,List.length_singleton]
        omega
      · rw [List.filterMap_cons_some (by rw [hselected,if_pos hnear]),hcalm.results]
        refine (List.take_of_length_le ?_).symm
        simp only [List.length_append,List.length_singleton]
        omega
      · exact (hseen text' htext').imp_right fun h => .inr ⟨c,by simp,h⟩
    · rw [List.filterMap_cons_none (by rw [hselected,if_neg hnear]),List.filterMap_nil,
        List.append_nil,List.take_of_length_le hs.room,hcalm.results]
    · exact (hseen text' htext').imp_right fun h => .inr ⟨c,by simp,h⟩

omit he hc in
theorem whileGoingOn_tries {f : ℕ → Step γ Bool} {cs : ℕ → List (List ℕ)} {start count : ℕ}
    (hf : ∀ i, start ≤ i → i < start + count → Tries setting rule t (cs i) (f i))
    (hcs : ∀ c ∈ (List.range' start count).flatMap cs, IsCombination c)
    (hnodup : ((List.range' start count).flatMap cs).Nodup) :
    Tries setting rule t ((List.range' start count).flatMap cs) (whileGoingOn f start count) := by
  induction count generalizing start with
  | zero => exact .of_nil
  | succ count ih =>
    rw [List.range'_succ,List.flatMap_cons] at hcs hnodup ⊢
    have hrest := ih (fun i hi hlt => hf i (by omega) (by omega))
      (List.forall_mem_append.mp hcs).2 (List.nodup_append.mp hnodup).2.1
    exact (hf start le_rfl (by omega)).append hl hr hw hrest hcs hnodup

/-- The combinations that begin with the chosen indices, kept in reverse. -/
def below (chosen : List ℕ) (need start : ℕ) : List (List ℕ) :=
  (combinations elementNames.length need start).map (chosen.reverse ++ ·)

omit he hc hl hr hw in
theorem below_succ (chosen : List ℕ) (need start : ℕ) : below chosen (need + 1) start =
    (List.range' start (elementNames.length - need - start)).flatMap fun i =>
      below (i :: chosen) need (i + 1) := by
  simp [below,combinations,List.map_flatMap,Function.comp_def]

omit he hc hl hr hw in
theorem exists_rest {chosen : List ℕ} {need start : ℕ} {c : List ℕ}
    (h : c ∈ below chosen need start) :
    ∃ rest, c = chosen.reverse ++ rest ∧ rest.length = need := by
  unfold below at h
  obtain ⟨rest,hrest,rfl⟩ := List.mem_map.mp h
  exact ⟨rest,rfl,(mem_combinations.mp hrest).1⟩

/-- Once a prefix is complete, it is tested: what begins with a hopeless one is left out. -/
theorem testPrefix_tries {k need left start : ℕ} {chosen : List ℕ} {go : Step γ Bool}
    (hhalf : prefixLength k ≤ longestPrefix) (hneed : chosen.length + need = k) (hpos : 0 < k)
    (hwhole : chosen.length = prefixLength k) (hbelow : ∀ i ∈ chosen, i < elementNames.length)
    (hcs : ∀ c ∈ below chosen need start, IsCombination c)
    (hgo : reaches setting rule t (namesAt chosen.reverse) = true →
      Tries setting rule t (below chosen need start) go) :
    Tries setting rule t (below chosen need start) (do
      if ← exhausted setting then return !(← endIfSpent setting)
      if !(← prefixSurvives setting rule t (namesAt chosen.reverse)) then
        leaveOut left
        return true
      go) := by
  have htake : ∀ rest, (chosen.reverse ++ rest).take (prefixLength k) = chosen.reverse := by
    intro rest
    rw [← hwhole,← List.length_reverse,List.take_left]
  have hpos' : 0 < chosen.length := by
    rw [hwhole,prefixLength]
    omega
  have hnames : Names longestPrefix (namesAt chosen.reverse) :=
    Contract.names_reverse hpos' (by omega) hbelow
  intro s hs hnew
  refine (exhausted_yields he s).bind ?_
  rintro _ s₁ ⟨rfl,hcalm⟩
  rw [if_neg (by simp)]
  refine (prefixSurvives_yields hc hl hr hw hnames (hs.calm hcalm)).bind ?_
  rintro into s₂ ⟨hinto,hs₂,hresults,hseen⟩
  rw [hcalm.results] at hresults
  rw [hcalm.seen] at hseen
  refine .ite (fun hhopeless => ?_) fun hhope => ?_
  · refine (leaveOut_yields _ s₂).bind fun _ s₃ hleft => .of_pure ⟨?_,fun hend => by cases hend⟩
    refine .of_none hs (hs₂.calm hleft) (by rw [hleft.results,hresults])
      (fun text htext => ?_) (List.filterMap_eq_nil_iff.mpr fun c hc => ?_)
    · rw [hleft.seen] at htext
      exact (hseen text htext).imp_right fun heq => ⟨_,hnames,heq⟩
    · obtain ⟨rest,rfl,hlength⟩ := exists_rest hc
      replace hlength : (chosen.reverse ++ rest).length = k := by
        rw [List.length_append,List.length_reverse,hlength,hneed]
      rw [selected,hlength,htake,← hinto,if_neg (by simpa using hhopeless)]
  · refine (hgo ?_).later hl hr hw hcs hs₂ hresults (fun text htext => ?_) hnew
    · rw [← hinto]
      simpa using hhope
    · exact (hseen text htext).imp_right fun heq => ⟨_,hnames,heq⟩

/-- The walk below some chosen indices tries the combinations that begin with them; if the indices
are more than a prefix, then the prefix can reach the target. -/
theorem walk_tries {k : ℕ} (hk : longestPrefix < k) (hhalf : prefixLength k ≤ longestPrefix)
    {need : ℕ} {chosen : List ℕ} {start : ℕ} (hneed : chosen.length + need = k)
    (hbelow : ∀ i ∈ chosen, i < elementNames.length)
    (hcs : ∀ c ∈ below chosen need start, IsCombination c)
    (hnodup : (below chosen need start).Nodup)
    (hreach : prefixLength k < chosen.length →
      reaches setting rule t (namesAt (chosen.reverse.take (prefixLength k))) = true) :
    Tries setting rule t (below chosen need start)
      (walk (visitor setting rule t : Visitor (Step γ)) elementNames.length k need chosen
        start) := by
  induction need generalizing chosen start with
  | zero =>
    have hlength : chosen.reverse.length = k := by simpa using hneed
    have hself : below chosen 0 start = [chosen.reverse] := by simp [below,combinations]
    rw [hself] at hcs ⊢
    refine tryCombination_tries he hc hl hr hw (hcs _ (by simp)) ?_
    rw [hlength]
    exact hreach (by omega)
  | succ need ih =>
    have hgo : (prefixLength k ≤ chosen.length →
        reaches setting rule t (namesAt (chosen.reverse.take (prefixLength k))) = true) →
          Tries setting rule t (below chosen (need + 1) start) (whileGoingOn (fun i =>
            walk (visitor setting rule t : Visitor (Step γ)) elementNames.length k need
              (i :: chosen) (i + 1)) start (elementNames.length - need - start)) := by
      intro hprefix
      rw [below_succ] at hcs hnodup ⊢
      refine whileGoingOn_tries hl hr hw (fun i hi hlt => ?_) hcs hnodup
      have hmem : i ∈ List.range' start (elementNames.length - need - start) :=
        List.mem_range'_1.mpr ⟨hi,hlt⟩
      refine ih (by rw [List.length_cons]; omega)
        (List.forall_mem_cons.mpr ⟨by omega,hbelow⟩)
        (fun c hc => hcs c (List.mem_flatMap.mpr ⟨i,hmem,hc⟩))
        ((List.nodup_flatMap.mp hnodup).1 i hmem) fun hlonger => ?_
      rw [List.length_cons] at hlonger
      rw [List.reverse_cons,List.take_append_of_le_length (by rw [List.length_reverse]; omega)]
      exact hprefix (by omega)
    rw [walk]
    -- the prefix is tested where it is complete; above that, nothing is known of it yet
    by_cases htest : 1 < k ∧ chosen.length = prefixLength k
    · rw [if_pos htest]
      refine testPrefix_tries he hc hl hr hw hhalf hneed (by omega) htest.2 hbelow hcs fun h => ?_
      refine hgo fun _ => ?_
      rwa [List.take_of_length_le (by rw [List.length_reverse]; omega)]
    · rw [if_neg htest]
      refine hgo fun hlonger => hreach ?_
      have hone : 1 < k := Nat.lt_of_le_of_lt (by decide : 1 ≤ longestPrefix) hk
      have hne : chosen.length ≠ prefixLength k := fun heq => htest ⟨hone,heq⟩
      omega

omit he hc hl hr hw in
theorem below_nil (k : ℕ) : below [] k 0 = combinations elementNames.length k 0 := by
  unfold below
  simp

omit he hc hl hr hw in
theorem isCombination_of_mem {k : ℕ} (hk : longestPrefix < k) {c : List ℕ}
    (h : c ∈ combinations elementNames.length k 0) : IsCombination c := by
  obtain ⟨hlength,-,hbounds⟩ := mem_combinations.mp h
  exact ⟨by rwa [hlength],fun i hi => (hbounds i hi).2⟩

theorem trySizes_tries {ks : List ℕ} (hks : ∀ k ∈ ks, longestPrefix < k ∧
      prefixLength k ≤ longestPrefix) (hdistinct : ks.Nodup) :
    Tries setting rule t (ks.flatMap fun k => combinations elementNames.length k 0)
      (trySizes setting rule t ks : Step γ Bool) := by
  induction ks with
  | nil => exact .of_nil
  | cons k rest ih =>
    obtain ⟨⟨hk,hhalf⟩,hrest⟩ := List.forall_mem_cons.mp hks
    have hcs : ∀ c ∈ (k :: rest).flatMap fun k => combinations elementNames.length k 0,
        IsCombination c := by
      intro c hc
      obtain ⟨k',hk',hc⟩ := List.mem_flatMap.mp hc
      exact isCombination_of_mem (hks k' hk').1 hc
    have hnodup := nodup_flatMap_combinations elementNames.length hdistinct
    have hbelow := below_nil k
    have hwalk : Tries setting rule t (below [] k 0)
        (walkAll (visitor setting rule t : Visitor (Step γ)) elementNames.length k) := by
      refine walk_tries he hc hl hr hw hk hhalf (Nat.zero_add k) (by simp) ?_ ?_ (by simp)
      · rw [hbelow]
        exact fun c => isCombination_of_mem hk
      · rw [hbelow]
        exact nodup_combinations _ k 0
    rw [hbelow] at hwalk
    have htried := hwalk.append hl hr hw (ih hrest (List.nodup_cons.mp hdistinct).2) hcs hnodup
    intro s hs hnew
    refine (finished_yields he s).bind fun stop s₁ ⟨hstop,hcalm⟩ => ?_
    refine .ite (fun hfull => ?_) fun _ => ?_
    · refine (report_yields s₁).bind fun _ s₂ hreport => .of_pure ?_
      obtain ⟨hadvance,hlength⟩ := Advance.of_full hs (hstop.mp hfull) (hcalm.trans hreport)
      exact ⟨hadvance,fun _ => hlength⟩
    · refine htried.later hl hr hw hcs (hs.calm hcalm) hcalm.results ?_ hnew
      intro text htext
      exact .inl (by rwa [← hcalm.seen])

/-- One result type and rule after the other. -/
theorem tryPasses_yields (hks : ∀ k ∈ sizes setting.params.strategy, longestPrefix < k ∧
      prefixLength k ≤ longestPrefix) {ps : List (ResultType × Rule)} (hps : ps.Nodup)
    {s : State γ} (hfaithful : s.cache.Faithful setting.history)
    (hroom : s.results.length ≤ setting.params.maxCount)
    (hnew : ∀ x ∈ ps, ∀ most names, Names most names →
      s.seen.contains (build setting.params x.2 x.1 names none) = false) :
    (tryPasses setting ps).Yields s fun _ s' => s'.results = (s.results ++ ps.flatMap fun x =>
      selectedOf setting x.2 x.1 (sizes setting.params.strategy)).take setting.params.maxCount := by
  induction ps generalizing s with
  | nil => exact .of_pure (by simp [List.take_of_length_le hroom])
  | cons x rest ih =>
    obtain ⟨t,rule⟩ := x
    obtain ⟨hfresh,hrest⟩ := List.nodup_cons.mp hps
    obtain ⟨hnewHere,hnewRest⟩ := List.forall_mem_cons.mp hnew
    have hready : Ready setting rule t { s with rates := ∅ } := by
      refine ⟨hfaithful,hroom,fun names hnames => ?_⟩
      simp [hnewHere _ names hnames]
    have hcombs : ∀ c ∈ (sizes setting.params.strategy).flatMap fun k =>
        combinations elementNames.length k 0, IsCombination c := by
      intro c hc
      obtain ⟨k,hk,hc⟩ := List.mem_flatMap.mp hc
      exact isCombination_of_mem (hks k hk).1 hc
    have hsizes := trySizes_tries he hc hl hr hw hks List.nodup_range' _ hready
      fun c hc => hnewHere _ _ (hcombs c hc).names
    refine (Step.Yields.of_modify (Q := fun _ s' => s' = { s with rates := ∅ }) rfl).bind ?_
    rintro _ _ rfl
    refine hsizes.bind fun goOn s₁ ⟨hadvance,hend⟩ => ?_
    rw [List.flatMap_cons,← List.append_assoc]
    refine .ite (fun _ => ?_) fun hstop => .of_pure ?_
    · refine (ih hrest hadvance.ready.faithful hadvance.ready.room fun x hx most names hnames => ?_)
        |>.mono ?_
      · rw [Bool.eq_false_iff]
        intro hold
        -- what this pass has seen is of its own result type and rule
        have hother : ∀ most' names', Names most' names' → build setting.params x.2 x.1 names none ≠
            build setting.params rule t names' none := by
          intro most' names' hnames' heq
          obtain ⟨hrule,htype,-⟩ := build_injective hw hl hr hnames hnames' heq
          subst hrule htype
          exact hfresh hx
        rcases hadvance.seen _ hold with hseen | ⟨names',hnames',heq⟩ | ⟨c,hc,heq⟩
        · exact Bool.eq_false_iff.mp (hnewRest x hx most names hnames) hseen
        · exact hother _ _ hnames' heq
        · exact hother _ _ (hcombs c hc).names heq
      · intro _ s' hresults
        rw [hresults,hadvance.results]
        exact take_take_append _ _ _
    · have hfull := hend (by simpa using hstop)
      rw [hadvance.results,List.length_take] at hfull
      rw [hadvance.results]
      exact (List.take_append_of_le_length (by omega)).symm

end Walks

theorem nodup_passes {p : Params} (h : p.resultTypes.Nodup) : (passes p).Nodup := by
  refine List.nodup_flatMap.mpr ⟨fun t _ => ?_,h.imp fun hne x hx hx' => ?_⟩
  · exact (by decide : Rule.all.Nodup).map fun _ _ heq => congrArg Prod.snd heq
  · obtain ⟨_,-,rfl⟩ := List.mem_map.mp hx
    obtain ⟨_,-,heq⟩ := List.mem_map.mp hx'
    exact hne (congrArg Prod.fst heq).symm

/-- Where the records of a period agree, an exhaustive search that nothing ends before its time
finds the first of what is selected from the plain list of combinations. -/
theorem exhaust_results (hc : Element.Consistent setting.history)
    (hdeep : setting.params.strategy = .deep) (htypes : setting.params.resultTypes.Nodup)
    (hl : 0 ≤ setting.params.left) (hr : 0 ≤ setting.params.right)
    (hw : setting.params.Writable) (he : Endless setting) (random : γ) (cacheSize : ℕ) :
    ∃ s, (exhaust setting).runFrom (.initial random cacheSize) = (.ok ⟨⟩,s) ∧
      s.results = (allSelected setting).take setting.params.maxCount := by
  have hks : ∀ k ∈ sizes setting.params.strategy, longestPrefix < k ∧
      prefixLength k ≤ longestPrefix := by
    rw [hdeep]
    decide
  have hexhaust : (exhaust setting).Yields (.initial random cacheSize) fun _ s =>
      s.results = (allSelected setting).take setting.params.maxCount := by
    let start : State γ := { State.initial random cacheSize with
      total := combinationsPerPass setting.params.strategy * (passes setting.params).length }
    refine (Step.Yields.of_modify (Q := fun _ s' => s' = start) rfl).bind ?_
    rintro _ _ rfl
    refine (tryPasses_yields (s := start) he hc hl hr hw hks (nodup_passes htypes)
      (Element.Cache.faithful_empty _ _) (Nat.zero_le _)
      fun x _ most names _ => unseen_initial random cacheSize _).bind fun goOn s hresults => ?_
    refine .ite (fun _ => ?_) fun _ => .of_pure hresults
    refine (report_yields s).mono fun _ s' hcalm => ?_
    rw [hcalm.results]
    exact hresults
  obtain ⟨_,s,hrun,hresults⟩ := hexhaust
  exact ⟨s,hrun,hresults⟩

theorem exhaust_results_twoDraws :
    let setting := { overTwo [Backtest.lowDraw 2 10 (by decide),Backtest.lowDraw 1 15 (by decide)]
      with params := .make 50 1 .deep [.tail] 0 2 0 0 none none none }
    (setting.history.map Draw.period).Nodup ∧ Endless setting ∧
      ∃ s, (exhaust setting).runFrom (.initial () 1) = (.ok ⟨⟩,s) ∧
        s.results = (allSelected setting).take 1 ∧ s.results.length = 1 := by
  intro setting
  have hperiods : (setting.history.map Draw.period).Nodup := by decide
  have hendless : Endless setting := ⟨fun _ => rfl,rfl,rfl⟩
  have hwidths : 0 ≤ setting.params.left ∧ 0 ≤ setting.params.right := by decide
  have hwritable : setting.params.Writable := by
    unfold Params.Writable
    decide
  obtain ⟨s,hrun,hresults⟩ := exhaust_results (.of_nodup hperiods) rfl (by decide) hwidths.1
    hwidths.2 hwritable hendless () 1
  refine ⟨hperiods,hendless,s,hrun,hresults,?_⟩
  -- the first ten elements come near the target
  obtain ⟨r,hr⟩ : ∃ r, selected setting .drawn .tail (List.range 10) = some r := by
    rw [← Option.isSome_iff_exists]
    decide +kernel
  have hmem : r ∈ allSelected setting := by
    refine List.mem_flatMap.mpr ⟨(.tail,.drawn),by decide,?_⟩
    refine List.mem_filterMap.mpr ⟨List.range 10,List.mem_flatMap.mpr ⟨10,by decide,?_⟩,hr⟩
    exact mem_combinations.mpr ⟨rfl,by decide,by decide⟩
  have hpos := List.length_pos_of_mem hmem
  rw [hresults,List.length_take]
  exact Nat.min_eq_left hpos

end DrawFormula.Search
