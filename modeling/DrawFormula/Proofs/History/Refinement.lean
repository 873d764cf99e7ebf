import DrawFormula.History.Change
import DrawFormula.Proofs.History.Entries

/-! # A store is a map from periods to draws

A change touches the periods that it stores a draw for, or takes the draw away from. After any
changes a store holds for each period what the latest change that touched the period left there:
within a merged list the last draw of a period counts, on the lines of a text the first one. The
answers to the changes say what has happened, and each listener is told once of every change but
those that fail or find nothing to remove.
-/
namespace DrawFormula.History

/-! ## The map -/

/-- What a change leaves for a period, a draw or none, if it touches the period. -/
def Change.leaves? (p : ℤ) : Change → Option (Option Draw)
  | .merge draws => (lastOf? p draws).map some
  | .mergeText text zodiacYear => (firstOnLines? p text zodiacYear).map some
  | .mergeTable text defaultYear => ((ofTable text defaultYear).toOption.bind (lastOf? p)).map some
  | .erase q => if q = p then some none else none
  | .clear => some none

/-- The draw of a period when an initial list has been changed: what the latest change that touches
the period leaves, or else the last one in the list. -/
def latestOf? (initial : List Draw) (changes : List Change) (p : ℤ) : Option Draw :=
  (changes.reverse.findSome? (Change.leaves? p)).getD (lastOf? p initial)

/-! ## What is asked of stores and answers -/

/-- What a store gives that holds the draws of a map. -/
structure Store.Holds (s : Store) (m : ℤ → Option Draw) : Prop where
  get? : ∀ p, s.get? p = m p
  mem_toList : ∀ d, d ∈ s.toList ↔ m d.period = some d
  descending : s.toList.Pairwise fun a b => b.period < a.period
  size : s.size = s.toList.length
  size_eq_periods : s.size = {p | (m p).isSome}.ncard
  latest? : s.latest? = s.toList.head?
  latest?_greatest : ∀ d, s.latest? = some d ↔
    m d.period = some d ∧ ∀ q e, m q = some e → q ≤ d.period

/-- Whether an answer suits a change, by the stores before and after it. -/
def Change.Suits (before : Store) : Change → Reply × Store → Prop
  | .merge _, (.added n, after) | .mergeText _ _, (.added n, after) =>
    after.size = before.size + n
  | .mergeTable text defaultYear, (.added n, after) =>
    (∃ draws, ofTable text defaultYear = .ok draws) ∧ after.size = before.size + n
  | .mergeTable text defaultYear, (.failed e, after) =>
    ofTable text defaultYear = .error e ∧ after = before
  | .erase p, (.erased found, _) => found = (before.get? p).isSome
  | .clear, (.cleared, _) => True
  | _, _ => False

/-- Whether listeners are told of the change that is answered. -/
def Reply.tells : Reply → Bool
  | .added _ | .cleared => true
  | .erased found => found
  | .failed _ => false

namespace Store
variable {s : Store}

theorem holds_get? (s : Store) : s.Holds s.get? where
  get? _ := rfl
  mem_toList _ := Descending.mem_iff s.descending
  descending := s.descending
  size := rfl
  size_eq_periods := Descending.length_eq s.descending
  latest? := rfl
  latest?_greatest _ := Descending.head?_eq_some_iff s.descending

/-! ## One change -/

theorem get?_merge (s : Store) (draws : List Draw) (p : ℤ) :
    (s.merge draws).get? p = ((lastOf? p draws).map some).getD (s.get? p) := by
  refine (drawOf?_putAll p s.draws draws).trans ?_
  cases lastOf? p draws <;> rfl

theorem size_merge (s : Store) (draws : List Draw) :
    (s.merge draws).size = s.size + s.growth draws := length_putAll s.descending draws

theorem get?_erase (s : Store) (q p : ℤ) :
    (s.erase q).get? p = if q = p then none else s.get? p := by
  unfold erase
  split
  · have hfilter : drawOf? p (s.draws.filter fun d => d.period ≠ q) =
        if q = p then none else drawOf? p s.draws := by
      rw [drawOf?,List.find?_filter]
      split
      · next hp =>
        subst hp
        exact List.find?_eq_none.mpr fun d _ => by simp
      · next hne =>
        refine congrArg (s.draws.find? ·) (funext fun d => ?_)
        by_cases hd : d.period = p
        · simp [hd,Ne.symm hne]
        · simp [hd]
    exact hfilter
  · next hnone =>
    split
    · next hp => exact hp ▸ Option.not_isSome_iff_eq_none.mp hnone
    · rfl

theorem apply_mergeTable_of_ok {text : Text} {defaultYear : ℤ} {draws : List Draw}
    (h : ofTable text defaultYear = .ok draws) :
    s.apply (.mergeTable text defaultYear) = s.add draws := by
  simp only [apply,h]

theorem apply_mergeTable_of_error {text : Text} {defaultYear : ℤ} {e : HistoryTableError}
    (h : ofTable text defaultYear = .error e) :
    s.apply (.mergeTable text defaultYear) = (.failed e,s) := by
  simp only [apply,h]

theorem get?_apply (s : Store) (c : Change) (p : ℤ) :
    (s.apply c).2.get? p = (c.leaves? p).getD (s.get? p) := by
  cases c with
  | merge draws => exact s.get?_merge draws p
  | mergeText text zodiacYear =>
    refine (s.get?_merge (ofText text zodiacYear) p).trans ?_
    rw [lastOf?_ofText]
    rfl
  | mergeTable text defaultYear =>
    cases h : ofTable text defaultYear with
    | ok draws =>
      rw [apply_mergeTable_of_ok h,Change.leaves?,h]
      exact s.get?_merge draws p
    | error e =>
      rw [apply_mergeTable_of_error h,Change.leaves?,h]
      rfl
  | erase q =>
    refine (s.get?_erase q p).trans ?_
    rw [Change.leaves?]
    split <;> rfl
  | clear => rfl

theorem told_apply (s : Store) (c : Change) :
    (s.apply c).2.told = s.told.map (· + (s.apply c).1.tells.toNat) := by
  cases c with
  | merge | mergeText | clear => rfl
  | mergeTable text defaultYear =>
    cases h : ofTable text defaultYear with
    | ok draws =>
      rw [apply_mergeTable_of_ok h]
      rfl
    | error e =>
      rw [apply_mergeTable_of_error h]
      exact (List.map_id s.told).symm
  | erase p =>
    simp only [apply,erase,Reply.tells]
    split
    · next hfound =>
      rw [hfound]
      rfl
    · next hnone =>
      rw [Bool.not_eq_true] at hnone
      rw [hnone]
      exact (List.map_id s.told).symm

theorem suits_apply (s : Store) (c : Change) : c.Suits s (s.apply c) := by
  cases c with
  | merge draws => exact s.size_merge draws
  | mergeText text zodiacYear => exact s.size_merge (ofText text zodiacYear)
  | mergeTable text defaultYear =>
    cases h : ofTable text defaultYear with
    | ok draws =>
      rw [apply_mergeTable_of_ok h]
      exact ⟨⟨draws,h⟩,s.size_merge draws⟩
    | error e =>
      rw [apply_mergeTable_of_error h]
      exact ⟨h,rfl⟩
  | erase p => rfl
  | clear => trivial

/-! ## Changes one after the other -/

/-- The answers to changes, and the store after them. -/
def run (s : Store) : List Change → List Reply × Store
  | [] => ([],s)
  | c :: rest => ((s.apply c).1 :: ((s.apply c).2.run rest).1,((s.apply c).2.run rest).2)

theorem run_concat (s : Store) (changes : List Change) (c : Change) :
    s.run (changes ++ [c]) = ((s.run changes).1 ++ [((s.run changes).2.apply c).1],
      ((s.run changes).2.apply c).2) := by
  induction changes generalizing s with
  | nil => rfl
  | cons first rest ih => simp only [List.cons_append,run,ih]

theorem get?_run (s : Store) (changes : List Change) (p : ℤ) :
    (s.run changes).2.get? p =
      (changes.reverse.findSome? (Change.leaves? p)).getD (s.get? p) := by
  -- What the first change leaves counts only if no later one touches the period.
  induction changes generalizing s with
  | nil => rfl
  | cons c rest ih =>
    have hlast : [c].findSome? (Change.leaves? p) = c.leaves? p := by
      cases h : c.leaves? p <;> simp [h]
    rw [run,ih,get?_apply,List.reverse_cons,List.findSome?_append,hlast,Option.getD_or]

theorem told_run (s : Store) (changes : List Change) :
    (s.run changes).2.told = s.told.map (· + (s.run changes).1.countP Reply.tells) := by
  induction changes generalizing s with
  | nil => exact (List.map_id s.told).symm
  | cons c rest ih =>
    rw [run,ih,told_apply,List.map_map,List.countP_cons]
    refine List.map_congr_left fun k _ => ?_
    cases (s.apply c).1.tells with
    | false => simp
    | true =>
      simp
      omega

theorem get?_ofList (initial : List Draw) (p : ℤ) : (ofList initial).get? p = lastOf? p initial := by
  refine (drawOf?_putAll p [] initial).trans ?_
  rw [drawOf?,List.find?_nil,Option.or_none]

theorem repeat_subscribe (s : Store) (n : ℕ) :
    (n.repeat subscribe s).draws = s.draws ∧
      (n.repeat subscribe s).told = s.told ++ List.replicate n 0 := by
  induction n with
  | zero => exact ⟨rfl,(List.append_nil _).symm⟩
  | succ n ih =>
    refine ⟨ih.1,?_⟩
    rw [List.replicate_succ',← List.append_assoc,← ih.2]
    rfl

end Store

/-- A store of an initial list, to which listeners have come, holds after any changes the map of
what was stored latest. Each listener has been told once of every change that was answered so, and
whatever change comes next, its answer suits it and is the next one. -/
theorem run_holds (initial : List Draw) (listeners : ℕ) (changes : List Change) :
    let start := listeners.repeat Store.subscribe (.ofList initial)
    ∃ replies s, start.run changes = (replies,s) ∧ s.Holds (latestOf? initial changes) ∧
      s.told = List.replicate listeners (replies.countP Reply.tells) ∧
      ∀ c, c.Suits s (s.apply c) ∧
        start.run (changes ++ [c]) = (replies ++ [(s.apply c).1],(s.apply c).2) := by
  intro start
  obtain ⟨hdraws,htold⟩ := Store.repeat_subscribe (.ofList initial) listeners
  refine ⟨_,_,rfl,?_,?_,fun c => ⟨Store.suits_apply _ c,start.run_concat changes c⟩⟩
  · have hmap : (start.run changes).2.get? = latestOf? initial changes := by
      funext p
      have hstart : start.get? p = lastOf? p initial := by
        rw [← Store.get?_ofList]
        exact congrArg (drawOf? p) hdraws
      rw [Store.get?_run,hstart]
      rfl
    exact hmap ▸ (start.run changes).2.holds_get?
  · have hstart : start.told = List.replicate listeners 0 := htold
    rw [Store.told_run,hstart,List.map_replicate,Nat.zero_add]

end DrawFormula.History
