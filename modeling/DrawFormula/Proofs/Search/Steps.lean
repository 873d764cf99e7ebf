import DrawFormula.Search.Run
import Mathlib.Data.Nat.Notation

/-! # What the steps of a search ensure

A step leads from a state to a state and gives an answer or fails. What is ensured of a step is in
which class of states it stays, for what reason alone it fails, and of what kind its answers are;
this is found out along the program, one primitive step after the other.
-/
namespace DrawFormula.Search
variable {γ α β : Type}

@[simp] theorem runFrom_get_bind (f : State γ → Step γ α) (s : State γ) :
    Step.runFrom (get >>= f) s = (f s).runFrom s := rfl

@[simp] theorem runFrom_set_bind (f : PUnit → Step γ α) (s s' : State γ) :
    Step.runFrom (set s' >>= f) s = (f ⟨⟩).runFrom s' := rfl

@[simp] theorem runFrom_modify_bind (g : State γ → State γ) (f : PUnit → Step γ α) (s : State γ) :
    Step.runFrom (modify g >>= f) s = (f ⟨⟩).runFrom (g s) := rfl

theorem runFrom_bind_of_ok {x : Step γ α} {a : α} {s s' : State γ}
    (h : x.runFrom s = (.ok a,s')) (f : α → Step γ β) :
    Step.runFrom (x >>= f) s = (f a).runFrom s' := by
  have hrun : x.run.run s = (.ok a,s') := h
  change (x >>= f).run.run s = (f a).run.run s'
  rw [ExceptT.run_bind,StateT.run_bind,hrun]
  rfl

theorem runFrom_bind_of_error {x : Step γ α} {e : NumeralError} {s s' : State γ}
    (h : x.runFrom s = (.error e,s')) (f : α → Step γ β) :
    Step.runFrom (x >>= f) s = (.error e,s') := by
  have hrun : x.run.run s = (.error e,s') := h
  change (x >>= f).run.run s = (.error e,s')
  rw [ExceptT.run_bind,StateT.run_bind,hrun]
  rfl

/-- Steps that do the same are followed from one state, or they fail both. -/
theorem runFrom_bind_cases {x y : Step γ α} {s : State γ} (h : x.runFrom s = y.runFrom s)
    (f g : α → Step γ β) : Step.runFrom (x >>= f) s = Step.runFrom (y >>= g) s ∨
      ∃ a s', Step.runFrom (x >>= f) s = (f a).runFrom s' ∧
        Step.runFrom (y >>= g) s = (g a).runFrom s' := by
  rcases hy : y.runFrom s with ⟨e | a,s'⟩
  · left
    rw [runFrom_bind_of_error (h.trans hy),runFrom_bind_of_error hy]
  · exact .inr ⟨a,s',runFrom_bind_of_ok (h.trans hy) f,runFrom_bind_of_ok hy g⟩

theorem runFrom_exhausted (setting : Setting) (s : State γ) : (exhausted setting).runFrom s =
    (.ok (setting.stop s.asked || isSpent setting s),{ s with asked := s.asked + 1 }) := by
  have hasks : (asksToStop setting).runFrom s =
    (.ok (setting.stop s.asked),{ s with asked := s.asked + 1 }) := rfl
  rw [exhausted,runFrom_bind_of_ok hasks]
  cases setting.stop s.asked <;> rfl

/-- Whether an outcome is an answer of a kind, or a failure for a reason. -/
def Meets (E : Prop) (Q : α → Prop) : Except NumeralError α → Prop
  | .ok a => Q a
  | .error _ => E

/-- Whether a step leads from a class of states into the class, also where it fails, and what it
gives is an answer of a kind, or a failure for a reason. -/
def Step.Ensures (I : State γ → Prop) (E : Prop) (step : Step γ α) (Q : α → Prop) : Prop :=
  ∀ s, I s → Meets E Q (step.runFrom s).1 ∧ I (step.runFrom s).2

namespace Step.Ensures
variable {I : State γ → Prop} {E : Prop} {P Q : α → Prop} {R : β → Prop}

theorem of_pure {a : α} (h : Q a) : Step.Ensures I E (pure a : Step γ α) Q := fun _ hs => ⟨h,hs⟩

theorem of_throw (e : NumeralError) (h : E) : Step.Ensures I E (throw e : Step γ α) Q :=
  fun _ hs => ⟨h,hs⟩

theorem of_except {x : Except NumeralError α} (h : Meets E Q x) :
    Step.Ensures I E (liftExcept x : Step γ α) Q := by
  cases x with
  | ok a => exact of_pure h
  | error e => exact of_throw e h

theorem of_get : Step.Ensures I E (get : Step γ (State γ)) I := fun _ hs => ⟨hs,hs⟩

theorem of_modify {f : State γ → State γ} (h : ∀ s, I s → I (f s)) :
    Step.Ensures I E (modify f : Step γ PUnit) fun _ => True :=
  fun s hs => ⟨trivial,h s hs⟩

theorem bind {x : Step γ α} {f : α → Step γ β} (hx : x.Ensures I E Q)
    (hf : ∀ a, Q a → (f a).Ensures I E R) : Step.Ensures I E (x >>= f) R := by
  intro s hs
  obtain ⟨hmeets,hafter⟩ := hx s hs
  rcases hr : x.runFrom s with ⟨result,after⟩
  rw [hr] at hmeets hafter
  cases result with
  | error e =>
    rw [runFrom_bind_of_error hr]
    exact ⟨hmeets,hafter⟩
  | ok a =>
    rw [runFrom_bind_of_ok hr]
    exact hf a hmeets after hafter

theorem ite {p : Prop} {_ : Decidable p} {x y : Step γ α} (hx : p → x.Ensures I E Q)
    (hy : ¬ p → y.Ensures I E Q) : Step.Ensures I E (if p then x else y) Q := by
  split
  · next hp => exact hx hp
  · next hp => exact hy hp

theorem mono {x : Step γ α} (hx : x.Ensures I E Q) (h : ∀ a, Q a → P a) : x.Ensures I E P := by
  intro s hs
  obtain ⟨hmeets,hafter⟩ := hx s hs
  refine ⟨?_,hafter⟩
  cases hr : (x.runFrom s).1 with
  | error e => rwa [hr] at hmeets
  | ok a =>
    rw [hr] at hmeets
    exact h a hmeets

/-- An answer comes from a run in a state of the class. -/
theorem outcome {x : Step γ α} (hx : x.Ensures I E Q) :
    x.Ensures I E fun a => Q a ∧ ∃ s, I s ∧ (x.runFrom s).1 = .ok a := by
  intro s hs
  obtain ⟨hmeets,hafter⟩ := hx s hs
  refine ⟨?_,hafter⟩
  cases hr : (x.runFrom s).1 with
  | error e => rwa [hr] at hmeets
  | ok a =>
    rw [hr] at hmeets
    exact ⟨hmeets,s,hs,hr⟩

theorem result {x : Step γ α} (hx : x.Ensures I E Q) {s : State γ} (hs : I s) {a : α}
    (h : (x.runFrom s).1 = .ok a) : Q a := by
  have hmeets := (hx s hs).1
  rwa [h] at hmeets

theorem answer {x : Step γ α} (hx : x.Ensures (fun _ => True) True Q) {s : State γ} {a : α}
    (h : (x.runFrom s).1 = .ok a) : Q a := hx.result trivial h

end Step.Ensures

/-- Whether a step, taken in a state, gives an answer, and what holds of it and the state after. -/
def Step.Yields (step : Step γ α) (s : State γ) (Q : α → State γ → Prop) : Prop :=
  ∃ a s', step.runFrom s = (.ok a,s') ∧ Q a s'

namespace Step.Yields
variable {s : State γ} {P Q : α → State γ → Prop} {R : β → State γ → Prop}

theorem of_pure {a : α} (h : Q a s) : Step.Yields (pure a) s Q := ⟨a,s,rfl,h⟩

theorem of_get {Q : State γ → State γ → Prop} (h : Q s s) : Step.Yields get s Q := ⟨s,s,rfl,h⟩

theorem of_modify {f : State γ → State γ} {Q : PUnit → State γ → Prop} (h : Q ⟨⟩ (f s)) :
    Step.Yields (modify f) s Q :=
  ⟨⟨⟩,f s,rfl,h⟩

theorem bind {x : Step γ α} {f : α → Step γ β} (hx : x.Yields s Q)
    (hf : ∀ a s', Q a s' → (f a).Yields s' R) : Step.Yields (x >>= f) s R := by
  obtain ⟨a,s',hrun,ha⟩ := hx
  obtain ⟨b,s'',hrest,hb⟩ := hf a s' ha
  exact ⟨b,s'',by rw [runFrom_bind_of_ok hrun,hrest],hb⟩

theorem ite {p : Prop} {_ : Decidable p} {x y : Step γ α} (hx : p → x.Yields s Q)
    (hy : ¬ p → y.Yields s Q) : Step.Yields (if p then x else y) s Q := by
  split
  · next hp => exact hx hp
  · next hp => exact hy hp

theorem mono {x : Step γ α} (hx : x.Yields s Q) (h : ∀ a s', Q a s' → P a s') :
    x.Yields s P := by
  obtain ⟨a,s',hrun,ha⟩ := hx
  exact ⟨a,s',hrun,h a s' ha⟩

end Step.Yields

end DrawFormula.Search
