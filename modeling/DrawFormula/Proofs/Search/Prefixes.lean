import DrawFormula.Proofs.Search.Combinations
import DrawFormula.Proofs.Search.Steps

/-! # A walk prefix by prefix

A walk puts to the test, in lexicographic order, each half combination that leaves room for its
other half. It goes through the combinations that begin with an accepted one, and notes how many
begin with a rejected one. So a walk that nothing ends is a plain pass over a list of prefixes: what
it visits are the combinations with an accepted prefix, and what it leaves out are all others.
-/
namespace DrawFormula.Search

/-! ## Prefixes and their completions -/

/-- The index after the last one of a prefix, or `start` if there is none. -/
def nextIndex (start : ℕ) (p : List ℕ) : ℕ := (p.getLast?.map (· + 1)).getD start

theorem nextIndex_cons (start i : ℕ) (p : List ℕ) :
    nextIndex start (i :: p) = nextIndex (i + 1) p := by
  cases h : p.getLast? with
  | none => simp [nextIndex,List.getLast?_cons,h]
  | some j => simp [nextIndex,List.getLast?_cons,h]

/-- The combinations that a prefix begins, with so many indices more from `start` on. -/
def completions (n later : ℕ) (p : List ℕ) (start : ℕ) : List (List ℕ) :=
  (combinations n later start).map (p ++ ·)

/-- The combinations are the completions of their prefixes, one prefix after the other. -/
theorem combinations_add (n h later start : ℕ) : combinations n (h + later) start =
    (combinations (n - later) h start).flatMap fun p =>
      completions n later p (nextIndex start p) := by
  induction h generalizing start with
  | zero => simp [combinations,completions,nextIndex]
  | succ h ih =>
    have hroom : n - (h + later) - start = n - later - h - start := by omega
    rw [Nat.succ_add,combinations,combinations,hroom,List.flatMap_assoc]
    refine congrArg (List.flatMap · _) (funext fun i => ?_)
    rw [ih (i + 1),List.map_flatMap,List.flatMap_map]
    refine congrArg (List.flatMap · _) (funext fun p => ?_)
    rw [nextIndex_cons,completions,completions,List.map_map]
    rfl

section Halves
variable {n h later : ℕ} {p c : List ℕ}

theorem take_of_mem_completions {start : ℕ} (hp : p.length = h)
    (hc : c ∈ completions n later p start) : c.take h = p := by
  obtain ⟨rest,-,rfl⟩ := List.mem_map.mp hc
  rw [← hp,List.take_left]

theorem length_completions (n later : ℕ) (p : List ℕ) (start : ℕ) :
    (completions n later p start).length = (n - start).choose later := by
  rw [completions,List.length_map,length_combinations]

theorem filter_completions (hp : p.length = h) (start : ℕ) (f : List ℕ → Bool) :
    ((completions n later p start).filter fun c => f (c.take h)) =
      if f p then completions n later p start else [] := by
  have hsame : ∀ c ∈ completions n later p start, f (c.take h) = f p := by
    intro c hc
    rw [take_of_mem_completions hp hc]
  split
  · next haccepted => exact List.filter_eq_self.mpr fun c hc => (hsame c hc).trans haccepted
  · next hrejected =>
    refine List.filter_eq_nil_iff.mpr fun c hc => ?_
    rwa [hsame c hc]

/-- A prefix that leaves room for more indices is the beginning of a combination. -/
theorem exists_mem_completions (hh : 0 < h) (hp : p ∈ combinations (n - later) h 0) :
    ∃ c, c ∈ completions n later p (nextIndex 0 p) := by
  obtain ⟨hlength,-,hbounds⟩ := mem_combinations.mp hp
  obtain ⟨i,hi⟩ : ∃ i, p.getLast? = some i := by
    refine ⟨p.getLast (List.length_pos_iff.mp (by omega)),List.getLast?_eq_some_getLast _⟩
  have hroom := (hbounds i (List.mem_of_getLast? hi)).2
  have hnext : nextIndex 0 p = i + 1 := by rw [nextIndex,hi]; rfl
  have hsome : 0 < (completions n later p (nextIndex 0 p)).length := by
    rw [length_completions,hnext]
    exact Nat.choose_pos (by omega)
  exact List.exists_mem_of_length_pos hsome

/-- The prefixes are the beginnings of combinations. -/
theorem mem_prefixes (hh : 0 < h) : p ∈ combinations (n - later) h 0 ↔
    ∃ c ∈ combinations n (h + later) 0, c.take h = p := by
  rw [combinations_add]
  simp only [List.mem_flatMap]
  constructor
  · intro hp
    obtain ⟨c,hc⟩ := exists_mem_completions hh hp
    exact ⟨c,⟨p,hp,hc⟩,take_of_mem_completions (mem_combinations.mp hp).1 hc⟩
  · rintro ⟨c,⟨q,hq,hc⟩,rfl⟩
    rwa [take_of_mem_completions (mem_combinations.mp hq).1 hc]

end Halves

/-! ## The walk -/

section Walks
variable {m : Type → Type} [Monad m]

theorem allM_map {α β : Type} (g : α → β) (f : β → m Bool) (xs : List α) :
    (xs.map g).allM f = xs.allM fun x => f (g x) := by
  induction xs with
  | nil => rfl
  | cons x xs ih => simp only [List.map_cons,List.allM,ih]

variable [LawfulMonad m]

theorem allM_singleton {α : Type} (f : α → m Bool) (x : α) : [x].allM f = f x := by
  conv_rhs => rw [← bind_pure (f x)]
  refine bind_congr fun goOn => ?_
  cases goOn with
  | true => rfl
  | false => rfl

theorem allM_append {α : Type} (f : α → m Bool) (xs ys : List α) :
    (xs ++ ys).allM f = do if ← xs.allM f then ys.allM f else return false := by
  induction xs with
  | nil => simp [List.allM]
  | cons x xs ih =>
    simp only [List.cons_append,List.allM,bind_assoc]
    refine bind_congr fun goOn => ?_
    cases goOn with
    | true => exact ih
    | false => simp

theorem whileGoingOn_allM {α : Type} (f : α → m Bool) (xs : ℕ → List α) (start count : ℕ) :
    whileGoingOn (fun i => (xs i).allM f) start count =
      ((List.range' start count).flatMap xs).allM f := by
  induction count generalizing start with
  | zero => rfl
  | succ count ih =>
    rw [whileGoingOn,List.range'_succ,List.flatMap_cons,allM_append,ih]

variable (v : Visitor m) (n : ℕ) {k : ℕ}

/-- What a walk does with a prefix. -/
def tryPrefix (k : ℕ) (p : List ℕ) (start : ℕ) : m Bool := do
  if ← v.exhausted then return !(← v.ended)
  if !(← v.goInto p) then
    v.leaveOut (binomial (n - start) (k - prefixLength k))
    return true
  (completions n (k - prefixLength k) p start).allM v.visit

theorem whileGoingOn_completions {chosen : List ℕ} {need : ℕ} {f : ℕ → m Bool}
    (hf : ∀ i, f i = (completions n need (i :: chosen).reverse (i + 1)).allM v.visit)
    (start : ℕ) : whileGoingOn f start (n - need - start) =
      (completions n (need + 1) chosen.reverse start).allM v.visit := by
  rw [funext hf,whileGoingOn_allM]
  simp [completions,combinations,List.map_flatMap,Function.comp_def]

/-- Below a prefix a walk goes through its completions. -/
theorem walk_below {chosen : List ℕ} (h : prefixLength k < chosen.length) (need start : ℕ) :
    walk v n k need chosen start = (completions n need chosen.reverse start).allM v.visit := by
  induction need generalizing chosen start with
  | zero =>
    simp only [walk,completions,combinations,List.map_cons,List.map_nil,List.append_nil]
    exact (allM_singleton v.visit chosen.reverse).symm
  | succ need ih =>
    rw [walk,if_neg (fun htest => h.ne htest.2.symm)]
    exact whileGoingOn_completions v n (fun i => ih (h.trans (Nat.lt_succ_self _)) (i + 1)) start

theorem walk_tested (hk : 1 < k) {chosen : List ℕ} (h : chosen.length = prefixLength k)
    {need : ℕ} (hneed : k - prefixLength k = need + 1) (start : ℕ) :
    walk v n k (need + 1) chosen start = tryPrefix v n k chosen.reverse start := by
  have hlonger : ∀ i, prefixLength k < (i :: chosen).length := by
    intro i
    rw [List.length_cons,h]
    exact Nat.lt_succ_self _
  have hbelow := whileGoingOn_completions v n
    (fun i => walk_below v n (hlonger i) need (i + 1)) start
  rw [walk,if_pos ⟨hk,h⟩,tryPrefix,hneed,hbelow]

/-- A walk tries one prefix after the other. -/
theorem walk_eq_allM (hk : 1 < k) {later : ℕ} (hlater : prefixLength k + (later + 1) = k)
    {toGo : ℕ} {chosen : List ℕ} (h : chosen.length + toGo = prefixLength k) (start : ℕ) :
    walk v n k (toGo + (later + 1)) chosen start =
      (combinations (n - (later + 1)) toGo start).allM fun p =>
        tryPrefix v n k (chosen.reverse ++ p) (nextIndex start p) := by
  induction toGo generalizing chosen start with
  | zero =>
    rw [Nat.zero_add,walk_tested v n hk h (by omega),combinations,allM_singleton,List.append_nil]
    rfl
  | succ toGo ih =>
    have hroom : n - (toGo + (later + 1)) - start = n - (later + 1) - toGo - start := by omega
    have hne : ¬ (1 < k ∧ chosen.length = prefixLength k) := by omega
    have hfirst : ∀ i, walk v n k (toGo + (later + 1)) (i :: chosen) (i + 1) =
        ((combinations (n - (later + 1)) toGo (i + 1)).map (i :: ·)).allM fun p =>
          tryPrefix v n k (chosen.reverse ++ p) (nextIndex start p) := by
      intro i
      rw [ih (by rw [List.length_cons]; omega),allM_map]
      simp only [List.reverse_cons,List.append_assoc,List.singleton_append,nextIndex_cons]
    rw [Nat.succ_add,walk,if_neg hne,hroom,funext hfirst,whileGoingOn_allM,combinations]

/-- A walk over all combinations tries all prefixes in their order. -/
theorem walkAll_eq_allM (hk : 2 ≤ k) : walkAll v n k =
    (combinations (n - (k - prefixLength k)) (prefixLength k) 0).allM fun p =>
      tryPrefix v n k p (nextIndex 0 p) := by
  obtain ⟨later,hlater⟩ : ∃ later, k - prefixLength k = later + 1 := by
    refine ⟨k - prefixLength k - 1,?_⟩
    unfold prefixLength
    omega
  have hsum : prefixLength k + (later + 1) = k := by omega
  have hnone : ([] : List ℕ).length + prefixLength k = prefixLength k := Nat.zero_add _
  have hwalk := walk_eq_allM v n hk hsum hnone 0
  rw [hsum] at hwalk
  rw [walkAll,hwalk,hlater]
  rfl

end Walks

end DrawFormula.Search
