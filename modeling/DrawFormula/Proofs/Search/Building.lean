import DrawFormula.Proofs.Backtest.Locality
import DrawFormula.Proofs.Formula.RoundTrip
import DrawFormula.Proofs.Search.Contract
import DrawFormula.Proofs.Text.Integer
import DrawFormula.Proofs.Text.Splitting

/-! # Built candidates

The text of a built candidate is read as the sum that it was written from, with the settings of the
search, and its terms are the names that were summed up. Hence a mutation of a built candidate is a
built candidate for the same result type, and no two candidates have one text.
-/
namespace DrawFormula.Search
open Formula
variable {γ : Type} {p : Params} {rule : Rule} {t : ResultType} {most : ℕ} {names : List Text}

/-! ## Names -/

theorem exists_elements (h : ∀ e ∈ names, e ∈ elementNames) :
    ∃ es : List Element, (∀ e ∈ es, e ∈ Element.all) ∧ names = es.map Element.name := by
  induction names with
  | nil => exact ⟨[],by simp,rfl⟩
  | cons name rest ih =>
    obtain ⟨hname,hrest⟩ := List.forall_mem_cons.mp h
    obtain ⟨e,he,rfl⟩ := List.mem_map.mp hname
    obtain ⟨es,hes,rfl⟩ := ih hrest
    exact ⟨e :: es,List.forall_mem_cons.mpr ⟨he,hes⟩,rfl⟩

theorem name_ne_nil {name : Text} (h : name ∈ elementNames) : name ≠ [] := by
  obtain ⟨e,he,rfl⟩ := List.mem_map.mp h
  exact Element.spelling_ne_nil (Element.mem_spellings_of_mem_all he)

theorem ne_plus_of_mem_name {name : Text} (h : name ∈ elementNames) {c : Char} (hc : c ∈ name) :
    c ≠ '+' := by
  obtain ⟨e,he,rfl⟩ := List.mem_map.mp h
  have hrange := Element.mem_spelling (Element.mem_spellings_of_mem_all he) hc
  rintro rfl
  have hcode : '+'.toNat = 43 := rfl
  omega

/-- The terms of a sum of names are the names. -/
theorem terms_intercalate (h : ∀ e ∈ names, e ∈ elementNames) :
    terms (List.intercalate ['+'] names) = names := by
  by_cases hnil : names = []
  · subst hnil
    rfl
  have hsplit : (List.intercalate ['+'] names).splitOn '+' = names :=
    List.splitOn_intercalate '+' (fun name hname hmem => ne_plus_of_mem_name (h name hname) hmem rfl)
      hnil
  have hterms : Text.splitAtAll (· = '+') (List.intercalate ['+'] names) = names :=
    (Text.splitAtAll_eq_splitOnP _ _).trans hsplit
  rw [terms,hterms,List.filter_eq_self]
  intro name hname
  simpa using name_ne_nil (h name hname)

/-! ## Reading -/

section Reading
variable (hw : p.Writable) (hl : 0 ≤ p.left) (hr : 0 ≤ p.right) (hn : Names most names)
include hw hl hr hn

theorem composed_sumWith (rule : Rule) (t : ResultType) :
    (sumWith p rule t names none).Composed := by
  obtain ⟨es,hes,rfl⟩ := exists_elements hn.known
  refine ⟨⟨es,fun hnil => hn.ne_nil (by simp [hnil]),hes,rfl⟩,?_⟩
  have hlt : ∀ n ∈ [p.offset,(p.periods : ℤ),p.left,p.right],
      n.natAbs < 10 ^ Text.digitLimit := fun n hmem => Text.isWritable_iff.mp (hw n hmem)
  simp only [List.mem_cons,List.not_mem_nil,or_false,forall_eq_or_imp,forall_eq] at hlt
  obtain ⟨hoffset,hperiods,hleft,hright⟩ := hlt
  rw [Int.natAbs_natCast] at hperiods
  exact ⟨p.periods_pos,hperiods,hoffset,hl,by simp only [sumWith]; omega,hr,
    by simp only [sumWith]; omega⟩

theorem readLine_build (rule : Rule) (t : ResultType) :
    readLine (build p rule t names none) 0 =
      .ok ⟨sumWith p rule t names none,build p rule t names none,0⟩ :=
  (composed_sumWith hw hl hr hn rule t).readable.readLine_text 0

theorem read_build (rule : Rule) (t : ResultType) :
    read (build p rule t names none) = .ok (sumWith p rule t names none) :=
  (composed_sumWith hw hl hr hn rule t).readable.read_text

end Reading

/-- A text is built of one list of names only, by one rule and for one result type. -/
theorem build_injective (hw : p.Writable) (hl : 0 ≤ p.left) (hr : 0 ≤ p.right)
    (hn : Names most names) {rule' : Rule} {t' : ResultType} {most' : ℕ} {names' : List Text}
    (hn' : Names most' names') (h : build p rule t names none = build p rule' t' names' none) :
    rule = rule' ∧ t = t' ∧ names = names' := by
  have hread := read_build hw hl hr hn rule t
  rw [h,read_build hw hl hr hn' rule' t'] at hread
  simp only [sumWith,Except.ok.injEq,Formula.mk.injEq] at hread
  obtain ⟨hrule,htype,hsum,-⟩ := hread
  rw [← terms_intercalate hn.known,← terms_intercalate hn'.known,hsum]
  exact ⟨hrule.symm,htype.symm,rfl⟩

/-! ## Testing -/

/-- A sum of names has a value for every draw. -/
theorem exists_rawValue (hn : Names most names) (rule : Rule) (t : ResultType) (d : Draw) :
    ∃ v, (sumWith p rule t names none).rawValue d = .ok v := by
  obtain ⟨es,hes,rfl⟩ := exists_elements hn.known
  obtain ⟨tree,htree,-,hrange⟩ := exists_tree (fun hnil => hn.ne_nil (by simp [hnil])) hes
  refine ⟨tree.value d (rule = .sorted),?_⟩
  have hvalue := tree.evaluate_eq_value d (rule = .sorted) hrange
    (rfl : (Memo.empty 0 : Element.Cache).enabled = false)
  rw [htree] at hvalue
  exact congrArg Prod.fst hvalue

/-- Whether a score is that of a backtest of the formula alone and without a memo. -/
def Verified (setting : Setting) (r : Found) : Prop :=
  ∃ line b, readLine r.formula 0 = .ok line ∧
    Backtest.runAlone line setting.history setting.anchor 0 = .ok b ∧
      r = Found.ofBacktest r.formula b

theorem exists_verified {setting : Setting} (hl : 0 ≤ setting.params.left)
    (hr : 0 ≤ setting.params.right) {text : Text} (h : BuiltFor setting.params t most text) :
    ∃ r, r.formula = text ∧ Verified setting r := by
  obtain ⟨hw,rule,names,hn,rfl⟩ := h
  obtain ⟨b,hb⟩ := Backtest.exists_attempt ⟨sumWith setting.params rule t names none,
    build setting.params rule t names none,0⟩ (exists_rawValue hn rule t) setting.history
    setting.anchor
  refine ⟨.ofBacktest _ b,rfl,_,b,readLine_build hw hl hr hn rule t,?_,rfl⟩
  rw [Backtest.runAlone,Backtest.run_empty,hb]

/-! ## Candidates of an evolutionary search -/

/-- Whether a text is a sum of names for one of the result types, written with the settings of the
search. -/
def Bred (p : Params) (text : Text) : Prop :=
  ∃ t ∈ p.resultTypes, BuiltFor p t (mostMutated p.periods) text

theorem ten_le_mostMutated (periods : ℕ) : 10 ≤ mostMutated periods := by
  unfold mostMutated
  split_ifs <;> omega

theorem elements_le_mostMutated {s : Strategy} (h : s ≠ .deep) (periods : ℕ) :
    max s.leastElements s.mostElements ≤ mostMutated periods := by
  have hten : max s.leastElements s.mostElements ≤ 10 := by
    cases s with
    | fast => decide
    | standard => decide
    | deep => exact absurd rfl h
  exact hten.trans (ten_le_mostMutated periods)

/-- A mutation of a built candidate is a built candidate for the same result type. -/
theorem mutate_built [RandomSource γ] {I : State γ → Prop} {E : Prop}
    (draws : ∀ (s : State γ) (random : γ), I s → I { s with random := random })
    (hE : ¬ p.Writable → E) (hl : 0 ≤ p.left) (hr : 0 ≤ p.right) {text : Text}
    (h : BuiltFor p t (mostMutated p.periods) text) :
    (mutate p text : Step γ (Option Text)).Ensures I E fun candidate =>
      ∀ text ∈ candidate, BuiltFor p t (mostMutated p.periods) text := by
  obtain ⟨hw,rule,names,hn,rfl⟩ := h
  -- a mutation starts from the sum that the text was written from
  have hread := read_build hw hl hr hn rule t
  have hten := ten_le_mostMutated p.periods
  refine mutate_ensures draws hE (fun e he => ?_) (fun f hf seeded hseeded => ?_) ?_
  · rw [hread] at he
    cases he
  · rw [hread] at hf
    obtain rfl := Except.ok.inj hf
    exact hseeded.mono (by omega)
  · intro f hf mutant hmutant
    rw [hread] at hf
    obtain rfl := Except.ok.inj hf
    obtain ⟨htwo,hlength,hknown⟩ := hmutant
    simp only [sumWith,terms_intercalate hn.known] at hlength hknown
    refine ⟨hw,rule,mutant,⟨?_,hlength.trans (max_le hn.length_le le_rfl),fun e he => ?_⟩,rfl⟩
    · rintro rfl
      simp at htwo
    · rcases hknown e he with hold | hnew
      · exact hn.known e hold
      · exact recommended_known t e hnew

theorem type_of_mem_seeds {x : ResultType × Text × Rule} (h : x ∈ seeds p) :
    x.1 ∈ p.resultTypes := by
  simp only [seeds,List.mem_flatMap,List.mem_map] at h
  obtain ⟨t,ht,seed,-,rule,-,rfl⟩ := h
  exact ht

theorem type_of_mem_templateSeeds {x : ResultType × Rule} (h : x ∈ templateSeeds p) :
    x.1 ∈ p.resultTypes := by
  simp only [templateSeeds,List.mem_flatMap,List.mem_map] at h
  obtain ⟨t,ht,rule,-,rfl⟩ := h
  exact ht

section Breeding
variable [RandomSource γ] {I : State γ → Prop} {E : Prop}
  (draws : ∀ (s : State γ) (random : γ), I s → I { s with random := random })
  (hE : ¬ p.Writable → E)
include draws hE

theorem fromSeed_bred {x : ResultType × Text × Rule} (h : x ∈ seeds p) :
    (fromSeed p x.2.1 x.1 x.2.2 : Step γ Text).Ensures I E (Bred p) := by
  refine (fromSeed_ensures draws hE (seed_known h) _ _).mono fun text hbuilt => ?_
  have hten := ten_le_mostMutated p.periods
  exact ⟨_,type_of_mem_seeds h,hbuilt.mono (by omega)⟩

theorem fromTemplate_bred (hstrategy : p.strategy ≠ .deep) {x : ResultType × Rule}
    (h : x ∈ templateSeeds p) : (fromTemplate p x.1 x.2 : Step γ (Option Text)).Ensures I E
      fun candidate => ∀ text ∈ candidate, Bred p text := by
  refine (fromTemplate_ensures draws hE _ _).mono fun candidate hbuilt text htext => ?_
  exact ⟨_,type_of_mem_templateSeeds h,
    (hbuilt text htext).mono (elements_le_mostMutated hstrategy _)⟩

theorem mutate_bred (hl : 0 ≤ p.left) (hr : 0 ≤ p.right) {text : Text} (h : Bred p text) :
    (mutate p text : Step γ (Option Text)).Ensures I E
      fun candidate => ∀ text ∈ candidate, Bred p text := by
  obtain ⟨t,ht,hbuilt⟩ := h
  refine (mutate_built draws hE hl hr hbuilt).mono fun candidate hmutant text htext => ?_
  exact ⟨t,ht,hmutant text htext⟩

theorem randomFormula_bred : (randomFormula p : Step γ Text).Ensures I E (Bred p) := by
  refine (randomFormula_ensures draws hE).mono ?_
  rintro text ⟨t,ht,hbuilt⟩
  have hten := ten_le_mostMutated p.periods
  exact ⟨t,ht,hbuilt.mono (by omega)⟩

end Breeding

end DrawFormula.Search
