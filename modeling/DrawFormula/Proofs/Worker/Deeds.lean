import DrawFormula.Proofs.Worker.Reading
import DrawFormula.Proofs.Worker.Runs

/-! # What is done through a handle

Through a handle its task is cancelled, a message is read, or it is noticed that the worker has
ended. For the worker each of these is a short run about the task of the handle. Nothing comes out
of a handle that has ended, and a last message ends it.
-/
namespace DrawFormula.Worker
open Mail
variable {ρ μ : Type} [Mail μ]

namespace Handle

/-- What can be done through a handle. -/
inductive Deed where
  | cancel
  /-- A message is read, if there is one. -/
  | read
  /-- It is noticed that the worker does not run. -/
  | report
deriving Repr, DecidableEq

/-- The handle of a cancelled task. -/
def muted (h : Handle μ) : Handle μ := { h with cancelled := true }

variable (h : Handle μ) (w : Worker ρ μ) (d : Deed)

theorem audible_muted (ms : List μ) : h.muted.audible ms = ms.filter Mail.isLast := if_pos rfl

/-- What is passed on by a deed, and the handle and the worker after it. -/
def act : Deed → List μ × Handle μ × Worker ρ μ
  | .cancel =>
    ([],h.muted,if h.kind = .verify ∧ h.done = false then w.restart (some h.task) else w)
  | .read => ((h.read w).1.passed,(h.read w).2)
  | .report =>
    if h.isEnded || w.isAlive then ([],h,w)
    else
      let m := Mail.failure w.exitReason
      ([m],h.finish m,w.forget h.task)

/-- What a deed is for the worker. -/
def events : Deed → List (Event ρ μ)
  | .cancel => if h.kind = .verify ∧ h.done = false then [.restart (some h.task)] else []
  | .read =>
    if h.isEnded then []
    else if hasLast (w.waiting h.task).head?.toList then [.receive h.task,.forget h.task]
    else [.receive h.task]
  | .report => if h.isEnded || w.isAlive then [] else [.forget h.task]

theorem worker_act : (h.act w d).2.2 = w.run (h.events w d) := by
  cases d with
  | cancel =>
    simp only [act,events]
    split <;> rfl
  | read =>
    simp only [act,events]
    rcases h.read_cases w with ⟨he,hread⟩ | ⟨he,m,rest,hw,hm,hread⟩ | ⟨he,hlast,reading,hread,-⟩
    · rw [he,hread]
      rfl
    · rw [he,hread,hw,List.head?_cons,Option.toList_some,hasLast_cons,hm]
      rfl
    · rw [he,hread,hlast]
      rfl
  | report =>
    simp only [act,events]
    split <;> rfl

theorem task_kind_act : (h.act w d).2.1.task = h.task ∧ (h.act w d).2.1.kind = h.kind := by
  cases d with
  | cancel => exact ⟨rfl,rfl⟩
  | read =>
    simp only [act]
    rcases h.read_cases w with ⟨-,hread⟩ | ⟨-,_,_,-,-,hread⟩ | ⟨-,-,_,hread,-⟩ <;>
      exact hread ▸ ⟨rfl,rfl⟩
  | report =>
    simp only [act]
    split <;> exact ⟨rfl,rfl⟩

/-- A deed is about the task of the handle, if about any. -/
theorem events_cases {x : Event ρ μ} (hx : x ∈ h.events w d) :
    x = .receive h.task ∨ x = .forget h.task ∨ x = .restart (some h.task) := by
  cases d with
  | cancel =>
    simp only [events] at hx
    split at hx
    · exact .inr (.inr (List.mem_singleton.mp hx))
    · cases hx
  | read =>
    simp only [events] at hx
    split at hx
    · cases hx
    · split at hx
      · rcases List.mem_cons.mp hx with hx | hx
        · exact .inl hx
        · exact .inr (.inl (List.mem_singleton.mp hx))
      · exact .inl (List.mem_singleton.mp hx)
  | report =>
    simp only [events] at hx
    split at hx
    · cases hx
    · exact .inr (.inl (List.mem_singleton.mp hx))

theorem allSent_events : w.allSent (h.events w d) = [] := by
  cases d with
  | cancel =>
    simp only [events]
    split <;> rfl
  | read =>
    simp only [events]
    split
    · rfl
    · split <;> rfl
  | report =>
    simp only [events]
    split <;> rfl

variable {h}

/-- Nothing comes out of a handle that has ended, and it does not open again. -/
theorem act_of_ended (he : h.isEnded = true) :
    (h.act w d).1 = [] ∧ (h.act w d).2.1.isEnded = true := by
  cases d with
  | cancel =>
    refine ⟨rfl,?_⟩
    cases hd : h.done with
    | true => simp [act,muted,isEnded,hd]
    | false =>
      have hkind : h.cancelled = true ∧ h.kind = .verify := by simpa [isEnded,hd] using he
      simp [act,muted,isEnded,hkind.2]
  | read =>
    simp only [act,h.read_of_ended w he]
    exact ⟨rfl,he⟩
  | report =>
    rw [act,he,Bool.true_or,if_pos rfl]
    exact ⟨rfl,he⟩

/-- A handle through which a last message is passed on has ended. -/
theorem ended_of_act (hlast : hasLast (h.act w d).1 = true) : (h.act w d).2.1.isEnded = true := by
  cases d with
  | cancel => cases hlast
  | read =>
    simp only [act] at hlast ⊢
    rcases h.read_cases w with ⟨he,hread⟩ | ⟨-,m,_,-,-,hread⟩ | ⟨-,hnone,reading,hread,hpassed⟩
    · rw [hread]
      exact he
    · rw [hread]
      exact h.isEnded_finish m
    · rw [hread] at hlast
      rw [hpassed,hasLast_audible,hnone] at hlast
      cases hlast
  | report =>
    simp only [act] at hlast ⊢
    split at hlast
    · cases hlast
    · next hc =>
      rw [if_neg hc]
      exact h.isEnded_finish _

end Handle

end DrawFormula.Worker
