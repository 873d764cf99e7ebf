import DrawFormula.Proofs.Search.Steps
import Mathlib.Data.Int.Notation

/-! # Candidates

Whatever the source of random numbers yields, a candidate around a seed, from a template or drawn
freely is a sum of names with the settings of the search, of a bounded number of elements; around a
seed and from a template no name is added twice. A mutation changes the elements of a formula and
nothing else. Candidates fail only on settings that are too long to be written.
-/
namespace DrawFormula.RandomSource
variable {γ α : Type} [RandomSource γ]

theorem pick_mem (xs : List α) (h : xs ≠ []) (g : γ) : (pick xs h g).1 ∈ xs := List.get_mem _ _

theorem between_bounds (low high : ℕ) (g : γ) :
    low ≤ (between low high g).1 ∧ (between low high g).1 ≤ max low high := by
  have hbelow := (below (high - low + 1) (Nat.succ_pos _) g).1.isLt
  simp only [between]
  omega

theorem shuffleDown_perm (i : ℕ) (xs : Array α) (g : γ) : (shuffleDown i xs g).1.Perm xs := by
  induction i generalizing xs g with
  | zero => exact .refl xs
  | succ i ih =>
    refine (ih _ _).trans ?_
    unfold Array.swapIfInBounds
    split
    · split
      · exact Array.swap_perm _ _
      · exact .refl xs
    · exact .refl xs

theorem shuffle_perm (xs : List α) (g : γ) : (shuffle xs g).1.Perm xs :=
  (shuffleDown_perm _ _ g).toList

end DrawFormula.RandomSource

namespace DrawFormula.Search
variable {γ α : Type}

/-! ## Sums of names -/

/-- Whether every number of the settings can be written. -/
def Params.Writable (p : Params) : Prop :=
  ∀ n ∈ [p.offset,(p.periods : ℤ),p.left,p.right], Text.isWritable n = true

theorem isWritable_sumWith {p : Params} {rule : Rule} {t : ResultType} {names : List Text} :
    (sumWith p rule t names none).isWritable = true ↔ p.Writable := by
  simp [Formula.isWritable,sumWith,Params.Writable]

/-- At least one and at most so many names of elements. -/
structure Names (most : ℕ) (names : List Text) : Prop where
  ne_nil : names ≠ []
  length_le : names.length ≤ most
  known : ∀ e ∈ names, e ∈ elementNames

/-- A sum of names for a result type, written with the settings of the search. -/
def BuiltFor (p : Params) (t : ResultType) (most : ℕ) (text : Text) : Prop :=
  p.Writable ∧ ∃ (rule : Rule) (names : List Text), Names most names ∧
    text = build p rule t names none

theorem Names.mono {most most' : ℕ} {names : List Text} (h : Names most names)
    (hle : most ≤ most') : Names most' names :=
  ⟨h.ne_nil,Nat.le_trans h.length_le hle,h.known⟩

theorem BuiltFor.mono {p : Params} {t : ResultType} {most most' : ℕ} {text : Text}
    (h : BuiltFor p t most text) (hle : most ≤ most') : BuiltFor p t most' text := by
  obtain ⟨hw,rule,names,hnames,htext⟩ := h
  exact ⟨hw,rule,names,hnames.mono hle,htext⟩

theorem recommended_known (t : ResultType) : ∀ e ∈ recommended t, e ∈ elementNames := by
  cases t <;> decide

theorem pool_known (t : ResultType) : ∀ e ∈ recommended t ++ elementNames, e ∈ elementNames :=
  List.forall_mem_append.mpr ⟨recommended_known t,fun _ he => he⟩

theorem templates_known (t : ResultType) : ∀ names ∈ templates t, ∀ e ∈ names,
    e ∈ elementNames := by
  cases t <;> decide

/-- Whether a list comes from elements by the addition of at most so many items of a pool, each of
them new. -/
def Filled (pool : List Text) (count : ℕ) (elements filled : List Text) : Prop :=
  ∃ added, filled = elements ++ added ∧ added.length ≤ count ∧ (∀ e ∈ added, e ∈ pool) ∧
    added.Nodup ∧ ∀ e ∈ added, e ∉ elements

namespace Filled
variable {pool pool' elements filled filled' : List Text} {count count' : ℕ}

theorem refl (pool : List Text) (count : ℕ) (elements : List Text) :
    Filled pool count elements elements := ⟨[],by simp⟩

theorem one {e : Text} (hpool : e ∈ pool) (hnew : e ∉ elements) :
    Filled pool 1 elements (elements ++ [e]) := ⟨[e],by simpa using ⟨hpool,hnew⟩⟩

theorem mono (h : Filled pool count elements filled) (hpool : ∀ e ∈ pool, e ∈ pool')
    (hcount : count ≤ count') : Filled pool' count' elements filled := by
  obtain ⟨added,hfilled,hlength,hadded,hdistinct⟩ := h
  exact ⟨added,hfilled,Nat.le_trans hlength hcount,fun e he => hpool e (hadded e he),hdistinct⟩

theorem trans (h : Filled pool count elements filled) (h' : Filled pool count' filled filled') :
    Filled pool (count + count') elements filled' := by
  obtain ⟨added,rfl,hlength,hadded,hnodup,hnew⟩ := h
  obtain ⟨more,rfl,hlength',hmore,hnodup',hnew'⟩ := h'
  have hapart : ∀ e ∈ more, e ∉ elements ∧ e ∉ added := fun e he => by
    simpa [not_or] using hnew' e he
  refine ⟨added ++ more,by simp,by rw [List.length_append]; omega,
    List.forall_mem_append.mpr ⟨hadded,hmore⟩,?_,
    List.forall_mem_append.mpr ⟨hnew,fun e he => (hapart e he).1⟩⟩
  refine List.nodup_append.mpr ⟨hnodup,hnodup',?_⟩
  rintro e he _ hmem rfl
  exact (hapart e hmem).2 he

theorem length_le (h : Filled pool count elements filled) :
    filled.length ≤ elements.length + count := by
  obtain ⟨added,rfl,hlength,-⟩ := h
  rw [List.length_append]
  omega

theorem forall_mem (h : Filled pool count elements filled) {P : Text → Prop}
    (helements : ∀ e ∈ elements, P e) (hpool : ∀ e ∈ pool, P e) : ∀ e ∈ filled, P e := by
  obtain ⟨added,rfl,-,hadded,-⟩ := h
  exact List.forall_mem_append.mpr ⟨helements,fun e he => hpool e (hadded e he)⟩

theorem nodup (h : Filled pool count elements filled) (helements : elements.Nodup) :
    filled.Nodup := by
  obtain ⟨added,rfl,-,-,hnodup,hnew⟩ := h
  refine List.nodup_append.mpr ⟨helements,hnodup,?_⟩
  rintro e he _ hmem rfl
  exact hnew e hmem he

end Filled

/-- What can become of the elements of a formula in a mutation. -/
structure Mutant (p : Params) (f : Formula) (names : List Text) : Prop where
  two_le : 2 ≤ names.length
  length_le : names.length ≤ max (terms f.expression).length (mostMutated p.periods)
  known : ∀ e ∈ names, e ∈ terms f.expression ∨ e ∈ recommended f.resultType

variable {I : State γ → Prop} {E : Prop} {p : Params}

theorem compose_ensures (hE : ¬ p.Writable → E) (rule : Rule) (t : ResultType)
    (names : List Text) : (compose p rule t names : Step γ Text).Ensures I E
      fun text => p.Writable ∧ text = build p rule t names none := by
  apply Step.Ensures.of_except
  unfold Formula.written
  split
  · next hw => exact ⟨isWritable_sumWith.mp hw,rfl⟩
  · next hw => exact hE (mt isWritable_sumWith.mpr hw)

/-! ## Draws -/

section Draws
variable (draws : ∀ (s : State γ) (random : γ), I s → I { s with random := random })
include draws

theorem drawing_ensures (f : γ → α × γ) :
    (drawing f).Ensures I E fun a => ∃ g, (f g).1 = a :=
  fun s hs => ⟨⟨s.random,rfl⟩,draws s _ hs⟩

variable [RandomSource γ]

theorem pick_ensures (xs : List α) (h : xs ≠ []) :
    (pick xs h : Step γ α).Ensures I E (· ∈ xs) := by
  refine (drawing_ensures draws _).mono ?_
  rintro _ ⟨g,rfl⟩
  exact RandomSource.pick_mem xs h g

theorem between_ensures (low high : ℕ) : (between low high : Step γ ℕ).Ensures I E
    fun n => low ≤ n ∧ n ≤ max low high := by
  refine (drawing_ensures draws _).mono ?_
  rintro _ ⟨g,rfl⟩
  exact RandomSource.between_bounds low high g

theorem shuffle_ensures (xs : List α) :
    (drawing (RandomSource.shuffle xs) : Step γ (List α)).Ensures I E (List.Perm · xs) := by
  refine (drawing_ensures draws _).mono ?_
  rintro _ ⟨g,rfl⟩
  exact RandomSource.shuffle_perm xs g

theorem pickUnused_ensures (used pool : List Text) (hpool : pool ≠ []) (tries : ℕ) :
    (pickUnused used pool hpool tries : Step γ (Option Text)).Ensures I E
      fun found => ∀ e ∈ found, e ∈ pool ∧ e ∉ used := by
  have hunused : ∀ {e : Text}, ¬ used.contains e = true → e ∉ used := by simp
  induction tries with
  | zero =>
    refine (pick_ensures draws pool hpool).bind fun e he => .of_pure ?_
    split
    · simp
    · next hnew => simpa using ⟨he,hunused hnew⟩
  | succ tries ih =>
    refine (pick_ensures draws pool hpool).bind fun e he => .ite (fun _ => ih) fun hnew => ?_
    exact .of_pure (by simpa using ⟨he,hunused hnew⟩)

theorem fillUnused_ensures (pool : List Text) (hpool : pool ≠ []) (count : ℕ)
    (elements : List Text) : (fillUnused pool hpool count elements : Step γ (List Text)).Ensures I E
      (Filled pool count elements) := by
  induction count generalizing elements with
  | zero => exact .of_pure (.refl _ _ _)
  | succ count ih =>
    refine (pickUnused_ensures draws elements pool hpool moreTries).bind fun found hfound => ?_
    cases found with
    | none => exact (ih elements).mono fun filled h => h.mono (fun _ he => he) (by omega)
    | some e =>
      obtain ⟨he,hnew⟩ := hfound e rfl
      refine (ih (elements ++ [e])).mono fun filled h => ?_
      exact ((Filled.one he hnew).trans h).mono (fun _ he => he) (by omega)

/-! ## New candidates -/

theorem growSeed_ensures (t : ResultType) (count : ℕ) (elements : List Text) :
    (growSeed t count elements : Step γ (List Text)).Ensures I E
      (Filled elementNames count elements) := by
  induction count generalizing elements with
  | zero => exact .of_pure (.refl _ _ _)
  | succ count ih =>
    -- one element more from either pool, and then the rest
    have hrest : ∀ grown, Filled elementNames 1 elements grown →
        (growSeed t count grown : Step γ (List Text)).Ensures I E
          (Filled elementNames (count + 1) elements) := by
      intro grown hone
      refine (ih grown).mono fun filled h => ?_
      exact (hone.trans h).mono (fun _ he => he) (by omega)
    refine (drawing_ensures draws _).bind fun x _ => ?_
    split
    · refine Step.Ensures.bind ?_ hrest
      refine (fillUnused_ensures draws _ (recommended_ne t) 1 elements).mono fun filled h => ?_
      exact h.mono (recommended_known t) (Nat.le_refl 1)
    · exact (fillUnused_ensures draws _ elementNames_ne 1 elements).bind hrest

/-- A candidate around a seed sums up the seed and at most seven new names. -/
theorem fromSeed_filled (hE : ¬ p.Writable → E) (seed : Text) (t : ResultType) (rule : Rule) :
    (fromSeed p seed t rule : Step γ Text).Ensures I E fun text => p.Writable ∧
      ∃ names, Filled elementNames 7 [seed] names ∧ text = build p rule t names none := by
  refine (between_ensures draws 3 8).bind fun size hsize => ?_
  refine (growSeed_ensures draws t (size - 1) [seed]).bind fun names hnames => ?_
  refine (compose_ensures hE rule t names).mono ?_
  rintro text ⟨hw,htext⟩
  exact ⟨hw,names,hnames.mono (fun _ he => he) (by omega),htext⟩

theorem fromSeed_ensures (hE : ¬ p.Writable → E) {seed : Text} (hseed : seed ∈ elementNames)
    (t : ResultType) (rule : Rule) :
    (fromSeed p seed t rule : Step γ Text).Ensures I E (BuiltFor p t 8) := by
  refine (fromSeed_filled draws hE seed t rule).mono ?_
  rintro text ⟨hw,names,hnames,htext⟩
  have hlength := hnames.length_le
  refine ⟨hw,rule,names,⟨?_,hlength,hnames.forall_mem (by simpa using hseed) fun _ he => he⟩,htext⟩
  obtain ⟨added,rfl,-⟩ := hnames
  simp

/-- A candidate from a template sums up the beginning of one and new names, at least three names
and no more than the strategy allows. -/
theorem fromTemplate_filled (hE : ¬ p.Writable → E) (t : ResultType) (rule : Rule) :
    (fromTemplate p t rule : Step γ (Option Text)).Ensures I E fun candidate =>
      ∀ text ∈ candidate, p.Writable ∧ ∃ template ∈ templates t,
        ∃ (size count : ℕ) (names : List Text),
          Filled (recommended t ++ elementNames) count (template.take size) names ∧
          3 ≤ names.length ∧ names.length ≤ max p.strategy.leastElements p.strategy.mostElements ∧
            text = build p rule t names none := by
  refine (between_ensures draws _ _).bind fun size hsize => ?_
  refine (pick_ensures draws _ (templates_ne t)).bind fun template htemplate => ?_
  refine (fillUnused_ensures draws _ (recommended_append_ne t) _ _).bind fun names hnames => ?_
  refine .ite (fun _ => .of_pure (by simp)) fun hthree => ?_
  refine (compose_ensures hE rule t _).bind ?_
  rintro text ⟨hw,htext⟩
  refine .of_pure fun text' htext' => ?_
  obtain rfl : text = text' := by simpa using htext'
  refine ⟨hw,template,htemplate,size,_,names,hnames,by omega,?_,htext⟩
  have hlength := hnames.length_le
  have hbase : (template.take size).length ≤ size := List.length_take_le size template
  omega

theorem fromTemplate_ensures (hE : ¬ p.Writable → E) (t : ResultType) (rule : Rule) :
    (fromTemplate p t rule : Step γ (Option Text)).Ensures I E fun candidate =>
      ∀ text ∈ candidate, BuiltFor p t
        (max p.strategy.leastElements p.strategy.mostElements) text := by
  refine (fromTemplate_filled draws hE t rule).mono fun candidate h text htext => ?_
  obtain ⟨hw,template,htemplate,size,count,names,hnames,hthree,hmost,htext⟩ := h text htext
  refine ⟨hw,rule,names,⟨?_,hmost,hnames.forall_mem (fun e he => ?_) (pool_known t)⟩,htext⟩
  · rintro rfl
    simp at hthree
  · exact templates_known t template htemplate e (List.mem_of_mem_take he)

theorem randomFormula_ensures (hE : ¬ p.Writable → E) :
    (randomFormula p : Step γ Text).Ensures I E fun text =>
      ∃ t ∈ p.resultTypes, BuiltFor p t 5 text := by
  refine (pick_ensures draws _ p.resultTypes_ne).bind fun t ht => ?_
  refine (shuffle_ensures draws _).bind fun elements helements => ?_
  refine (between_ensures draws 1 5).bind fun size hsize => ?_
  refine (pick_ensures draws _ rules_ne).bind fun rule _ => ?_
  refine (compose_ensures hE rule t _).mono ?_
  rintro text ⟨hw,htext⟩
  refine ⟨t,ht,hw,rule,_,⟨?_,?_,fun e he => ?_⟩,htext⟩
  · have hne : elements ≠ [] := fun hnil => recommended_ne t (by simpa [hnil] using helements)
    simp only [ne_eq,List.take_eq_nil_iff,not_or]
    exact ⟨by omega,hne⟩
  · have := List.length_take_le size elements
    omega
  · exact recommended_known t e (helements.mem_iff.mp (List.mem_of_mem_take he))

/-! ## Mutations -/

section Mutations
variable {P : Text → Prop} {t : ResultType} (hpool : ∀ e ∈ recommended t, P e)
include hpool

theorem exchange_ensures (rate : Float) {elements : List Text} (h : ∀ e ∈ elements, P e) :
    (exchange t rate elements : Step γ (List Text)).Ensures I E
      fun names => names.length = elements.length ∧ ∀ e ∈ names, P e := by
  induction elements with
  | nil => exact .of_pure ⟨rfl,h⟩
  | cons e rest ih =>
    obtain ⟨he,hrest⟩ := List.forall_mem_cons.mp h
    have hfirst : ∀ e, P e → (do return e :: (← exchange t rate rest) :
        Step γ (List Text)).Ensures I E
          fun names => names.length = rest.length + 1 ∧ ∀ e ∈ names, P e := by
      intro e he
      refine (ih hrest).bind ?_
      rintro names ⟨hlength,hnames⟩
      exact .of_pure ⟨by simp [hlength],List.forall_mem_cons.mpr ⟨he,hnames⟩⟩
    refine (drawing_ensures draws _).bind fun x _ => ?_
    split
    · exact (pick_ensures draws _ (recommended_ne t)).bind fun e he => hfirst e (hpool e he)
    · exact (Step.Ensures.of_pure he).bind hfirst

theorem addOne_ensures (most : ℕ) {elements : List Text} (h : ∀ e ∈ elements, P e) :
    (addOne t most elements : Step γ (List Text)).Ensures I E
      fun names => names.length ≤ max elements.length most ∧ ∀ e ∈ names, P e := by
  refine (drawing_ensures draws _).bind fun x _ => .ite (fun hroom => ?_) fun _ => ?_
  · refine (between_ensures draws 0 elements.length).bind fun place hplace => ?_
    refine (pick_ensures draws _ (recommended_ne t)).bind fun e he => .of_pure ⟨?_,?_⟩
    · simp only [List.length_append,List.length_take,List.length_cons,List.length_drop]
      omega
    · refine List.forall_mem_append.mpr ⟨fun e he => h e (List.mem_of_mem_take he),?_⟩
      exact List.forall_mem_cons.mpr ⟨hpool e he,fun e he => h e (List.mem_of_mem_drop he)⟩
  · exact .of_pure ⟨by omega,h⟩

omit hpool in
theorem removeOne_ensures {elements : List Text} (h : ∀ e ∈ elements, P e) :
    (removeOne elements : Step γ (List Text)).Ensures I E
      fun names => names.length ≤ elements.length ∧ ∀ e ∈ names, P e := by
  refine (drawing_ensures draws _).bind fun x _ => .ite (fun _ => ?_) fun _ =>
    .of_pure ⟨Nat.le_refl _,h⟩
  refine (between_ensures draws 0 _).bind fun place _ => .of_pure ⟨?_,fun e he => ?_⟩
  · exact (List.eraseIdx_sublist ..).length_le
  · exact h e (List.mem_of_mem_eraseIdx he)

omit hpool in
theorem reorder_ensures {elements : List Text} (h : ∀ e ∈ elements, P e) :
    (reorder elements : Step γ (List Text)).Ensures I E
      fun names => names.length = elements.length ∧ ∀ e ∈ names, P e := by
  refine (drawing_ensures draws _).bind fun x _ => .ite (fun _ => ?_) fun _ => .of_pure ⟨rfl,h⟩
  refine (shuffle_ensures draws elements).mono fun names hperm => ?_
  exact ⟨hperm.length_eq,fun e he => h e (hperm.mem_iff.mp he)⟩

end Mutations

/-- A mutation reads a formula. It is a candidate around a new seed, or the formula with other
elements. -/
theorem mutate_ensures (hE : ¬ p.Writable → E) {text : Text}
    (hnumeral : ∀ e, Formula.read text = .error (.numeral e) → E) {Q : Text → Prop}
    (hseeded : ∀ f, Formula.read text = .ok f → ∀ seeded, BuiltFor p f.resultType 8 seeded →
      Q seeded)
    (hmutant : ∀ f, Formula.read text = .ok f → ∀ names, Mutant p f names →
      Q (Formula.text { f with expression := List.intercalate ['+'] names })) :
    (mutate p text : Step γ (Option Text)).Ensures I E fun candidate =>
      ∀ text ∈ candidate, Q text := by
  unfold mutate
  split
  · exact .of_pure (by simp)
  · next e hread => exact .of_throw e (hnumeral e hread)
  · next f hread =>
    -- the four changes keep to the old elements and the recommended ones, the second alone adds one
    let P := fun e => e ∈ terms f.expression ∨ e ∈ recommended f.resultType
    have hpool : ∀ e ∈ recommended f.resultType, P e := fun e he => .inr he
    refine .ite (fun _ => .of_pure (by simp)) fun _ => ?_
    refine (exchange_ensures draws hpool _ (P := P) fun e he => .inl he).bind ?_
    rintro exchanged ⟨hexchanged,hpart⟩
    refine (addOne_ensures draws hpool _ hpart).bind ?_
    rintro enlarged ⟨henlarged,hpart⟩
    refine (removeOne_ensures draws hpart).bind ?_
    rintro reduced ⟨hreduced,hpart⟩
    refine (reorder_ensures draws hpart).bind ?_
    rintro names ⟨hnames,hpart⟩
    refine (drawing_ensures draws _).bind fun x _ => .ite (fun _ => ?_) fun _ => ?_
    · refine (pick_ensures draws _ (recommended_ne _)).bind fun seed hseed => ?_
      refine (pick_ensures draws _ rules_ne).bind fun rule _ => ?_
      refine (fromSeed_ensures draws hE (recommended_known _ seed hseed) _ rule).bind ?_
      intro seeded hbuilt
      exact .of_pure (by simpa using hseeded f hread seeded hbuilt)
    · refine .ite (fun _ => .of_pure (by simp)) fun htwo => .of_pure ?_
      have hmut : Mutant p f names := ⟨Nat.not_lt.mp htwo,by omega,hpart⟩
      simpa using hmutant f hread names hmut

end Draws

end DrawFormula.Search
