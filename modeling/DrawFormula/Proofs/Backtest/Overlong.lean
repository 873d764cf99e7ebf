import DrawFormula.Proofs.Backtest.Shared
import DrawFormula.Proofs.Expression.Overlong
import DrawFormula.Proofs.Formula.Overlong
import DrawFormula.Proofs.Formula.RoundTrip

/-! # Backtests that cannot be carried out

A backtest fails just if one of the sums that it meets cannot be added up. The sums that it meets
come from the draws of the window, with the memo as it is by then. So the account of the sums is
threaded through the same steps as the backtest itself.
-/
namespace DrawFormula.Backtest
open Expression (Overlong)

/-! ## Accounts of attempts -/

section Accounts
variable {α β β' ε σ τ : Type} {bad : τ → Prop}

/-- Whether an attempt fails just if something bad is met, and otherwise gives a value of a kind
and leaves the state of the account. -/
structure FailsAt (bad : τ → Prop) (attempt : σ → Except ε β × σ) (met : σ → List τ × σ)
    (Kind : β → Prop) : Prop where
  ok : ∀ s, (∀ m ∈ (met s).1, ¬ bad m) → ∃ y, attempt s = (.ok y,(met s).2) ∧ Kind y
  error : ∀ s, ∀ m ∈ (met s).1, bad m → ∃ e, (attempt s).1 = .error e

theorem FailsAt.map {attempt : σ → Except ε β × σ} {attempt' : σ → Except ε β' × σ}
    {met : σ → List τ × σ} {Kind : β → Prop} {Kind' : β' → Prop}
    (h : FailsAt bad attempt met Kind) (g : β → β')
    (hmap : ∀ s, attempt' s = ((attempt s).1.map g,(attempt s).2))
    (hkind : ∀ y, Kind y → Kind' (g y)) : FailsAt bad attempt' met Kind' where
  ok s hgood := by
    obtain ⟨y,hy,hkindy⟩ := h.ok s hgood
    exact ⟨g y,by rw [hmap,hy]; rfl,hkind y hkindy⟩
  error s m hm hbad := by
    obtain ⟨e,he⟩ := h.error s m hm hbad
    exact ⟨e,by rw [hmap,he]; rfl⟩

/-- What attempts one after the other meet, and the state in the end. -/
def metByAll (met : α → σ → List τ × σ) : List α → σ → List τ × σ
  | [], s => ([],s)
  | x :: xs, s =>
    let (first,s) := met x s
    let (rest,s) := metByAll met xs s
    (first ++ rest,s)

theorem Threaded.failsAt {step : α → σ → Except ε β × σ}
    {all : List α → σ → Except ε (List β) × σ} (ht : Threaded step all)
    {met : α → σ → List τ × σ} {Kind : α → β → Prop}
    (h : ∀ x, FailsAt bad (step x) (met x) (Kind x)) (xs : List α) :
    FailsAt bad (all xs) (metByAll met xs) (List.Forall₂ Kind xs) := by
  induction xs with
  | nil => exact ⟨fun s _ => ⟨[],ht.nil s,.nil⟩,nofun⟩
  | cons x xs ih =>
    constructor
    · intro s hgood
      obtain ⟨hfirst,hrest⟩ := List.forall_mem_append.mp hgood
      obtain ⟨y,hy,hkind⟩ := (h x).ok s hfirst
      obtain ⟨ys,hys,hkinds⟩ := ih.ok _ hrest
      exact ⟨y :: ys,by rw [ht.cons_ok hy,hys]; rfl,.cons hkind hkinds⟩
    · intro s m hm hbad
      -- a bad thing among the first ones ends the attempts, otherwise it is met later
      by_cases hfirst : ∀ m ∈ (met x s).1, ¬ bad m
      · obtain ⟨y,hy,-⟩ := (h x).ok s hfirst
        have hlater := (List.mem_append.mp hm).resolve_left fun hm => hfirst m hm hbad
        obtain ⟨e,he⟩ := ih.error _ m hlater hbad
        exact ⟨e,by rw [ht.cons_ok hy,he]; rfl⟩
      · simp only [not_forall,not_not,exists_prop] at hfirst
        obtain ⟨m',hm',hbad'⟩ := hfirst
        obtain ⟨e,he⟩ := (h x).error s m' hm' hbad'
        exact ⟨e,by rw [ht.cons_error (Prod.ext he rfl)]⟩

end Accounts

/-! ## Sums that are met -/

/-- The sum that an expression is evaluated from, if all its elements are known, and the memo. -/
def sumMet (t : Text) (d : Draw) (sorted : Bool) (cache : Element.Cache) :
    List Text × Element.Cache :=
  let (sum,cache) := Expression.substitute t d sorted cache
  (sum.toOption.toList,cache)

/-- The sums that the backtest of a formula meets, newest first, and the memo in the end. -/
def sumsMet (f : Formula) (history : List Draw) (target : Option ℤ) :
    Element.Cache → List Text × Element.Cache :=
  metByAll (fun p => sumMet f.expression p.2 f.usesSorted)
    (window f history (target.bind (lastPosition? history)))

/-- The sums that formulas tested one after the other meet, and the memo in the end. -/
def sumsMetByAll (history : List Draw) (overrides : Overrides) (target : Option ℤ) :
    List FormulaLine → Element.Cache → List Text × Element.Cache :=
  metByAll fun line => sumsMet (overrides.apply line.formula) history target

theorem failsAt_evaluate (t : Text) (d : Draw) (sorted : Bool) :
    FailsAt Overlong (Expression.evaluate t d sorted) (sumMet t d sorted) fun _ => True := by
  constructor
  · intro cache hshort
    rw [sumMet] at hshort ⊢
    rw [Expression.evaluate]
    rcases hsub : Expression.substitute t d sorted cache with ⟨unknown | s,after⟩
    · exact ⟨0,rfl,trivial⟩
    · rw [hsub] at hshort
      cases hs : Expression.sumOrZero s with
      | ok v => exact ⟨v,by simp [hs],trivial⟩
      | error e =>
        exact absurd (Expression.sumOrZero_eq_error_iff.mp ⟨e,hs⟩)
          (hshort s (by simp [Except.toOption]))
  · intro cache s hs hlong
    rw [sumMet] at hs
    rw [Expression.evaluate]
    rcases hsub : Expression.substitute t d sorted cache with ⟨unknown | s',after⟩
    · simp [hsub,Except.toOption] at hs
    · obtain rfl : s = s' := by simpa [hsub,Except.toOption] using hs
      obtain ⟨e,he⟩ := Expression.sumOrZero_eq_error_iff.mpr hlong
      exact ⟨e,by simp [he]⟩

theorem failsAt_run (line : FormulaLine) (history : List Draw) (target : Option ℤ) :
    FailsAt Overlong (run line history target) (sumsMet line.formula history target)
      fun b => b.line = line := by
  have hstep : ∀ p, FailsAt Overlong (outcomeWith line.formula p)
      (sumMet line.formula.expression p.2 line.formula.usesSorted) fun _ => True := fun p =>
    (failsAt_evaluate _ p.2 _).map (outcomeOf line.formula p.1) (fun _ => rfl) fun _ h => h
  refine ((threaded_outcomesOf line.formula).failsAt hstep _).map (ofOutcomes line
    (if (target.bind (lastPosition? history)).isSome then target else none)) (fun cache => ?_)
    fun _ _ => rfl
  rw [run]
  rcases outcomesOf line.formula
    (window line.formula history (target.bind (lastPosition? history))) cache with ⟨_ | os,after⟩
  · rfl
  · rfl

theorem failsAt_runAll (history : List Draw) (overrides : Overrides) (target : Option ℤ)
    (lines : List FormulaLine) :
    FailsAt Overlong (runAll history overrides target lines)
      (sumsMetByAll history overrides target lines)
      (List.Forall₂ (fun line b => b.line = overrides.applyLine line) lines) :=
  threaded_runAll.failsAt (fun line => failsAt_run (overrides.applyLine line) history target) lines

/-- A batch is read just if no line has settings that are too long, and formulas are tested, one
backtest for each, just if no sum that they meet is too long. -/
theorem read_runAll_iff (t : Text) (history : List Draw) (overrides : Overrides)
    (target : Option ℤ) (lines : List FormulaLine) (cache : Element.Cache) :
    ((∃ batch, Batch.read t = .ok batch) ↔
      ∀ line ∈ Text.splitLines t, ¬ Formula.OverlongLine (Batch.cleanLine line)) ∧
    ((∃ bs, (runAll history overrides target lines cache).1 = .ok bs ∧
        bs.map Backtest.line = lines.map overrides.applyLine) ↔
      ∀ s ∈ (sumsMetByAll history overrides target lines cache).1, ¬ Overlong s) := by
  have hfails := failsAt_runAll history overrides target lines
  refine ⟨Batch.read_eq_ok_iff,?_,fun h => ?_⟩
  · rintro ⟨bs,hbs,-⟩ s hs hlong
    obtain ⟨e,he⟩ := hfails.error cache s hs hlong
    rw [hbs] at he
    cases he
  · obtain ⟨bs,hbs,hlines⟩ := hfails.ok cache h
    refine ⟨bs,congrArg Prod.fst hbs,?_⟩
    rw [← List.forall₂_eq_eq_eq,List.forall₂_map_left_iff,List.forall₂_map_right_iff]
    exact hlines.flip

/-! ## Numbers with one digit more than are converted -/

/-- The special number over a window that is too long to be read. -/
def longWindow : Formula :=
  ⟨.sorted,.tail,Formula.sumOfNames [.special .number],0,10 ^ Text.digitLimit,0,0⟩

theorem treelike_longWindow : longWindow.Treelike := by
  obtain ⟨t,ht,hn,-⟩ := @Formula.exists_tree [.special .number] (by simp) (by decide)
  exact ⟨⟨t,ht,hn⟩,by decide⟩

theorem read_longWindow : ∃ e, Formula.read longWindow.text = .error (.numeral e) := by
  have hlong : Text.digitLimit < (Text.ofNat longWindow.periods).length := by
    rw [← Nat.not_le,Text.length_ofNat_le_iff]
    exact lt_irrefl _
  rw [treelike_longWindow.read_text ⟨le_rfl,le_rfl⟩,Formula.withNumbers_eq_numeral_iff]
  exact .inl ⟨_,rfl,hlong⟩

/-- A literal that is too long to be added up. -/
def longLiteral : Expression.Literal where
  digits := List.replicate (Text.digitLimit + 1) '1'
  digits_ne_nil := by simp
  ascii := by
    intro c hc
    rw [List.eq_of_mem_replicate hc]
    decide

/-- The long literal over a window of one period. -/
def longSum : Formula := ⟨.sorted,.tail,longLiteral.digits,0,1,0,0⟩

theorem readLine_longSum : Formula.readLine longSum.text 0 = .ok ⟨longSum,longSum.text,0⟩ := by
  have hsigns : (longLiteral.digits.all fun c => c = '+' || c = '-') = false := by
    rw [List.all_eq_false]
    exact ⟨'1',by simp [longLiteral],by decide⟩
  have htree : longSum.Treelike := ⟨⟨.literal longLiteral,rfl,rfl⟩,hsigns⟩
  have hpos : 0 < 10 ^ Text.digitLimit := Nat.pow_pos (by decide)
  have hone : 1 < 10 ^ Text.digitLimit := Nat.one_lt_pow (by decide) (by decide)
  exact (htree.readable ⟨Nat.one_pos,hone,hpos,le_rfl,hpos,le_rfl,hpos⟩).readLine_text 0

/-- Over a window of one period the only sum comes from the newest draw. -/
theorem runAll_newest {line : FormulaLine} {d : Draw} {s : Text} {cache after : Element.Cache}
    (hperiods : line.formula.periods = 1)
    (hsub : Expression.substitute line.formula.expression d line.formula.usesSorted cache =
      (.ok s,after)) (hlong : Overlong s) :
    ∃ e, (runAll [d] .none none [line] cache).1 = .error e := by
  have hline : Overrides.none.apply line.formula = line.formula := rfl
  have hwindow : window line.formula [d] none = [(d,d)] := by simp [window,hperiods,pairs]
  have hsums : (sumsMetByAll [d] .none none [line] cache).1 = [s] := by
    simp [sumsMetByAll,sumsMet,metByAll,sumMet,hline,hwindow,hsub,Except.toOption]
  have hmem : s ∈ (sumsMetByAll [d] .none none [line] cache).1 := by
    rw [hsums]
    exact List.mem_singleton_self s
  exact (failsAt_runAll [d] .none none [line]).error cache s hmem hlong

/-- A line can stop the batch that it stands in, and a line that is read can stop the tests of all
formulas. -/
theorem read_runAll_longNumbers :
    (¬ ∃ batch, Batch.read (['[','1',']'] ++ longWindow.text) = .ok batch) ∧
      ∃ line, Formula.readLine longSum.text 0 = .ok line ∧
        ∃ e, (runAll [Expression.largeEvenDraw] .none none [line] (Memo.empty 0)).1 = .error e := by
  have hlong : Overlong longLiteral.digits :=
    Expression.overlong_literal _ (by simp [longLiteral])
  have hsub := @Expression.substitute_literal longLiteral Expression.largeEvenDraw
    longSum.usesSorted (Memo.empty 0) rfl
  refine ⟨?_,_,readLine_longSum,runAll_newest rfl hsub hlong⟩
  have hcompact := Formula.compact_text ⟨le_rfl,le_rfl⟩ treelike_longWindow.compact
  have hindex : Formula.LineIndex ['[','1',']'] :=
    ⟨[],['1'],[],rfl,by simp,by decide,by simp⟩
  rw [Batch.read_eq_ok_iff,Formula.splitLines_append hcompact (by decide)]
  simp only [List.forall_mem_singleton,not_not,Formula.cleanLine_append hcompact hindex]
  exact Formula.read_eq_numeral_iff.mp read_longWindow

end DrawFormula.Backtest
