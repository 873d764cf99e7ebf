import DrawFormula.History.Line

/-! # Stores of draws

A store holds at most one draw for each period, newest first, and counts how often each of its
listeners is told of a change.  Whatever is merged last for a period replaces what was there.
-/
namespace DrawFormula

/-- A store of draws. -/
structure History.Store where
  /-- The draws in strictly descending order of periods. -/
  draws : List Draw
  /-- How often each listener was told of a change, in the order in which they came. -/
  told : List Nat
  descending : draws.Pairwise fun a b => b.period < a.period

namespace History

/-- Puts a draw into a list in descending order of periods, in place of one of its period. -/
def put (d : Draw) : List Draw → List Draw
  | [] => [d]
  | e :: rest =>
    if e.period < d.period then d :: e :: rest
    else if e.period = d.period then d :: rest
    else e :: put d rest

theorem mem_put {d x : Draw} {draws : List Draw} (h : x ∈ put d draws) : x = d ∨ x ∈ draws := by
  induction draws with
  | nil => simpa [put] using h
  | cons e rest ih =>
    simp only [put] at h
    split at h
    · simpa using h
    · split at h
      · rcases List.mem_cons.1 h with h | h
        · exact .inl h
        · exact .inr (List.mem_cons_of_mem e h)
      · rcases List.mem_cons.1 h with h | h
        · exact .inr (h ▸ List.mem_cons_self)
        · exact (ih h).imp id (List.mem_cons_of_mem e)

theorem pairwise_put {draws : List Draw} (d : Draw)
    (h : draws.Pairwise fun a b => b.period < a.period) :
    (put d draws).Pairwise fun a b => b.period < a.period := by
  induction draws with
  | nil => simp [put]
  | cons e rest ih =>
    obtain ⟨he, hrest⟩ := List.pairwise_cons.1 h
    simp only [put]
    split
    · rename_i hlt
      refine List.pairwise_cons.2 ⟨fun x hx => ?_, h⟩
      rcases List.mem_cons.1 hx with hx | hx
      · exact hx ▸ hlt
      · have := he x hx
        omega
    · split
      · rename_i heq
        exact List.pairwise_cons.2 ⟨fun x hx => heq ▸ he x hx, hrest⟩
      · refine List.pairwise_cons.2 ⟨fun x hx => ?_, ih hrest⟩
        rcases mem_put hx with hx | hx
        · subst hx
          omega
        · exact he x hx

/-- Puts draws into a list one after the other. -/
def putAll (draws : List Draw) (more : List Draw) : List Draw :=
  more.foldl (fun draws d => put d draws) draws

theorem pairwise_putAll {draws : List Draw} (more : List Draw)
    (h : draws.Pairwise fun a b => b.period < a.period) :
    (putAll draws more).Pairwise fun a b => b.period < a.period := by
  induction more generalizing draws with
  | nil => exact h
  | cons d rest ih => exact ih (pairwise_put d h)

/-- How many draws are of a period that is new when they are put into a list one after the other. -/
def countNew : List Draw → List Draw → Nat
  | _, [] => 0
  | draws, d :: more =>
    (if draws.any fun e => e.period = d.period then 0 else 1) + countNew (put d draws) more

namespace Store

/-- The store of some draws, without listeners; of two draws of a period the later one is kept. -/
def ofList (draws : List Draw) : Store :=
  ⟨putAll [] draws, [], pairwise_putAll draws .nil⟩

/-- The draws of a store, newest first. -/
def toList (s : Store) : List Draw := s.draws

/-- How many draws there are. -/
def size (s : Store) : Nat := s.draws.length

/-- The draw of a period. -/
def get? (s : Store) (period : Int) : Option Draw := s.draws.find? fun d => d.period = period

/-- The newest draw. -/
def latest? (s : Store) : Option Draw := s.draws.head?

/-- The store with one more listener. -/
def subscribe (s : Store) : Store := { s with told := s.told ++ [0] }

/-- The store when its listeners have been told of a change. -/
def changed (s : Store) : Store := { s with told := s.told.map (· + 1) }

/-- Adds draws in place of those of their periods. -/
def merge (s : Store) (more : List Draw) : Store :=
  changed ⟨putAll s.draws more, s.told, pairwise_putAll more s.descending⟩

/-- How many of some draws are of a new period when they are merged one after the other. -/
def growth (s : Store) (more : List Draw) : Nat := countNew s.draws more

/-- Removes the draw of a period; listeners are told only if there is one. -/
def erase (s : Store) (period : Int) : Store :=
  if (s.get? period).isSome then
    changed ⟨s.draws.filter fun d => d.period ≠ period, s.told, s.descending.filter _⟩
  else s

/-- Removes every draw. -/
def clear (s : Store) : Store := changed ⟨[], s.told, .nil⟩

end Store

end History

end DrawFormula
