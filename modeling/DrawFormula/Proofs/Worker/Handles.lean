import DrawFormula.Proofs.Worker.Outlook
import DrawFormula.Proofs.Worker.Restart
import DrawFormula.Proofs.Worker.Supervision

/-! # Handles and their tasks

A handle stays in its place with its task and its kind. Since tasks are numbered in the order of
their handles, no two handles share one: an event at one handle, or at none, reaches the task of
another handle only by a new start of the worker. Both workers stay sound.
-/
namespace DrawFormula.Worker
open Mail
variable {ρ μ : Type} [Mail μ]

/-- Every event that brings nothing new keeps a worker sound. -/
theorem Sound.apply {w : Worker ρ μ} {next : TaskId} (h : w.Sound next) {x : Event ρ μ}
    (hx : ∀ t, ¬ x.Brings t) : (w.apply x).Sound next := by
  cases x with
  | register t | send t _ | arrive t _ => exact absurd rfl (hx t)
  | forget t => exact h.forget t
  | ensureStarted => exact h.ensureStarted
  | take how => exact h.take how
  | emit => exact h.emit
  | die => exact h.die
  | stop => exact h.stop
  | restart dropped => exact h.restart dropped
  | receive t => exact h.receive t

theorem Sound.run {w : Worker ρ μ} {next : TaskId} (h : w.Sound next) {xs : List (Event ρ μ)}
    (hxs : ∀ x ∈ xs, ∀ t, ¬ x.Brings t) : (w.run xs).Sound next := by
  induction xs generalizing w with
  | nil => exact h
  | cons x xs ih =>
    exact ih (h.apply (hxs x List.mem_cons_self)) fun y hy => hxs y (List.mem_cons_of_mem x hy)

namespace Supervisor
variable {s : Supervisor ρ μ} {i : ℕ} {h : Handle μ} {e : Event ρ μ} {kind : RequestKind}

/-! ## Handles stay -/

/-- An event is a submission, something done through a handle, or a change of one worker. -/
theorem event_cases (e : Event ρ μ) : (∃ k request, e = .submit k request) ∨
    (∃ k f, ∀ s : Supervisor ρ μ, s.apply e = s.onWorker k f) ∨ ∃ i d, e = .handle i d := by
  cases e with
  | submit k request => exact .inl ⟨k,request,rfl⟩
  | take k how => exact .inr (.inl ⟨k,fun w => w.take how.answer,fun _ => rfl⟩)
  | emit k => exact .inr (.inl ⟨k,Worker.emit,fun _ => rfl⟩)
  | die k => exact .inr (.inl ⟨k,Worker.die,fun _ => rfl⟩)
  | stop k => exact .inr (.inl ⟨k,Worker.stop,fun _ => rfl⟩)
  | restart k dropped => exact .inr (.inl ⟨k,fun w => w.restart dropped,fun _ => rfl⟩)
  | handle i d => exact .inr (.inr ⟨i,d,rfl⟩)

/-- A handle stays in its place and keeps its task and its kind; an event elsewhere leaves it as it
is. -/
theorem exists_handle_apply (hi : s.handles[i]? = some h) (e : Event ρ μ) :
    ∃ h', (s.apply e).handles[i]? = some h' ∧ h'.task = h.task ∧ h'.kind = h.kind ∧
      (¬ e.Concerns i → h' = h) := by
  obtain ⟨hlt,-⟩ := List.getElem?_eq_some_iff.mp hi
  rcases event_cases e with ⟨k,request,rfl⟩ | ⟨k,f,happly⟩ | ⟨j,d,rfl⟩
  · refine ⟨h,?_,rfl,rfl,fun _ => rfl⟩
    rw [apply,handles_submit,List.getElem?_append_left hlt,hi]
  · refine ⟨h,?_,rfl,rfl,fun _ => rfl⟩
    rw [happly,onWorker,handles_setWorker,hi]
  · rcases hj : s.handles[j]? with _ | g
    · rw [apply,through_of_none hj]
      exact ⟨h,hi,rfl,rfl,fun _ => rfl⟩
    · rw [apply,through_of_handle hj,handles_setWorker,setHandle]
      by_cases hij : j = i
      · subst hij
        obtain rfl : g = h := Option.some.inj (hj.symm.trans hi)
        obtain ⟨htask,hkind⟩ := g.task_kind_act (s.worker g.kind) d
        exact ⟨_,List.getElem?_set_self hlt,htask,hkind,fun hnot => absurd rfl hnot⟩
      · exact ⟨h,(List.getElem?_set_ne hij).trans hi,rfl,rfl,fun _ => rfl⟩

omit [Mail μ] in
theorem handle_submit_cases {k : RequestKind} {request : ρ}
    (hi : (s.submit k request).handles[i]? = some h) :
    s.handles[i]? = some h ∨ i = s.handles.length ∧ h = .new s.nextTask k := by
  rw [handles_submit] at hi
  rcases Nat.lt_trichotomy i s.handles.length with hlt | rfl | hgt
  · rw [List.getElem?_append_left hlt] at hi
    exact .inl hi
  · rw [List.getElem?_concat_length] at hi
    exact .inr ⟨rfl,(Option.some.inj hi).symm⟩
  · rw [List.getElem?_eq_none (by rw [List.length_append]; exact hgt)] at hi
    cases hi

/-- Only a submission gives a number away and makes a handle. -/
theorem counts_apply (he : ∀ k request, e ≠ .submit k request) :
    (s.apply e).nextTask = s.nextTask ∧ (s.apply e).handles.length = s.handles.length := by
  rcases event_cases e with ⟨k,request,h⟩ | ⟨k,f,happly⟩ | ⟨j,d,rfl⟩
  · exact absurd h (he k request)
  · rw [happly,onWorker,nextTask_setWorker,handles_setWorker]
    exact ⟨rfl,rfl⟩
  · rcases hj : s.handles[j]? with _ | g
    · rw [apply,through_of_none hj]
      exact ⟨rfl,rfl⟩
    · rw [apply,through_of_handle hj,nextTask_setWorker,handles_setWorker,setHandle,
        List.length_set]
      exact ⟨rfl,rfl⟩

theorem submit_or_not (e : Event ρ μ) :
    (∃ k request, e = .submit k request) ∨ ∀ k request, e ≠ .submit k request := by
  cases e with
  | submit k request => exact .inl ⟨k,request,rfl⟩
  | _ => exact .inr fun _ _ => nofun

theorem handle_apply (hi : s.handles[i]? = some h) (he : ¬ e.Concerns i) :
    (s.apply e).handles[i]? = some h := by
  obtain ⟨h',hi',-,-,hsame⟩ := exists_handle_apply hi e
  rwa [hsame he] at hi'

/-- Whether a handle has not ended and its task is pending. -/
structure Open (s : Supervisor ρ μ) (i : ℕ) (h : Handle μ) : Prop where
  handle : s.handles[i]? = some h
  isEnded : h.isEnded = false
  registered : (s.worker h.kind).registered h.task = true

/-! ## Tasks are numbered -/

/-- What holds of a supervisor after every run. -/
structure Sound (s : Supervisor ρ μ) : Prop where
  workers : ∀ kind, (s.worker kind).Sound s.nextTask
  nextTask_eq : s.nextTask = s.handles.length + 1
  task_eq : ∀ i h, s.handles[i]? = some h → h.task = i + 1

/-- All that an event can be for a worker: a request is sent for the next task, one task is read or
forgotten through its handle, or the event is about no task in particular and no mere start. -/
theorem effect_cases {x : Worker.Event ρ μ} (hx : x ∈ s.effect kind e) :
    (∃ request, e = .submit kind request ∧ x = .send s.nextTask request) ∨
    (∃ i h, s.handles[i]? = some h ∧ e.Concerns i ∧ (x = .receive h.task ∨ x = .forget h.task)) ∨
    (∀ t, ¬ x.Touches t) ∧ ¬ x.Starts := by
  unfold effect at hx
  split at hx
  · next hk =>
    cases e with
    | submit k request =>
      obtain rfl : k = kind := hk
      exact .inl ⟨request,rfl,List.mem_singleton.mp hx⟩
    | take k _ | restart k _ =>
      obtain rfl := List.mem_singleton.mp hx
      exact .inr (.inr ⟨fun _ => id,id⟩)
    | emit k | die k | stop k =>
      obtain rfl := List.mem_singleton.mp hx
      exact .inr (.inr ⟨fun _ => id,id⟩)
    | handle i d =>
      rcases hi : s.handles[i]? with _ | h
      · rw [acts_of_none hi] at hx
        cases hx
      · rw [acts_of_handle hi] at hx
        rcases h.events_cases _ _ hx with rfl | rfl | rfl
        · exact .inr (.inl ⟨i,h,hi,rfl,.inl rfl⟩)
        · exact .inr (.inl ⟨i,h,hi,rfl,.inr rfl⟩)
        · exact .inr (.inr ⟨fun _ => id,id⟩)
  · cases hx

/-- An event that is no submission brings nothing and starts no worker for a task. -/
theorem effect_brings_nothing {x : Worker.Event ρ μ} (he : ∀ k request, e ≠ .submit k request)
    (hx : x ∈ s.effect kind e) : (∀ t, ¬ x.Brings t) ∧ ¬ x.Starts := by
  rcases effect_cases hx with ⟨request,h,-⟩ | ⟨_,_,-,-,rfl | rfl⟩ | ⟨hnone,hstarts⟩
  · exact absurd h (he kind request)
  · exact ⟨fun _ => id,id⟩
  · exact ⟨fun _ => id,id⟩
  · exact ⟨fun t hb => hnone t (Worker.Event.touches_of_brings hb),hstarts⟩

namespace Sound

theorem task_lt (hs : s.Sound) (hi : s.handles[i]? = some h) : h.task < s.nextTask := by
  obtain ⟨hlt,-⟩ := List.getElem?_eq_some_iff.mp hi
  rw [hs.task_eq i h hi,hs.nextTask_eq]
  exact Nat.succ_lt_succ hlt

/-- No event brings anything new for a task that has a handle. -/
theorem effect_brings_not (hs : s.Sound) (hi : s.handles[i]? = some h) :
    ∀ x ∈ s.effect kind e, ¬ x.Brings h.task := by
  intro x hx hb
  rcases effect_cases hx with ⟨_,-,rfl⟩ | ⟨_,_,-,-,rfl | rfl⟩ | ⟨hnone,-⟩
  · exact Nat.ne_of_gt (hs.task_lt hi) hb
  · exact hb
  · exact hb
  · exact hnone _ (Worker.Event.touches_of_brings hb)

/-- An event elsewhere does not touch the task of a handle. -/
theorem effect_touches_not (hs : s.Sound) (hi : s.handles[i]? = some h) (he : ¬ e.Concerns i) :
    ∀ x ∈ s.effect kind e, ¬ x.Touches h.task := by
  intro x hx ht
  have hne (j : ℕ) (g : Handle μ) (hj : s.handles[j]? = some g) (hc : e.Concerns j) :
      g.task ≠ h.task := by
    intro htask
    rw [hs.task_eq j g hj,hs.task_eq i h hi] at htask
    exact he (Nat.succ_inj.mp htask ▸ hc)
  rcases effect_cases hx with ⟨_,-,rfl⟩ | ⟨j,g,hj,hc,rfl | rfl⟩ | ⟨hnone,-⟩
  · exact Nat.ne_of_gt (hs.task_lt hi) ht
  · exact hne j g hj hc ht
  · exact hne j g hj hc ht
  · exact hnone _ ht

theorem submit (hs : s.Sound) (k : RequestKind) (request : ρ) : (s.submit k request).Sound := by
  refine ⟨fun kind => ?_,?_,fun i h hi => ?_⟩
  · rw [worker_submit,nextTask_submit]
    split
    · exact (hs.workers kind).send request
    · exact (hs.workers kind).mono (Nat.le_succ _)
  · rw [nextTask_submit,handles_submit,List.length_append,hs.nextTask_eq]
    rfl
  · rcases handle_submit_cases hi with hi | ⟨rfl,rfl⟩
    · exact hs.task_eq i h hi
    · exact hs.nextTask_eq

theorem apply (hs : s.Sound) (e : Event ρ μ) : (s.apply e).Sound := by
  rcases submit_or_not e with ⟨k,request,rfl⟩ | hnot
  · exact hs.submit k request
  · obtain ⟨hnext,hlength⟩ := counts_apply hnot (s := s)
    refine ⟨fun kind => ?_,by rw [hnext,hlength,hs.nextTask_eq],fun i h' hi' => ?_⟩
    · rw [worker_apply,hnext]
      refine (hs.workers kind).run fun x hx t hb => ?_
      exact (effect_brings_nothing hnot hx).1 t hb
    · obtain ⟨hlt,-⟩ := List.getElem?_eq_some_iff.mp hi'
      have hi := List.getElem?_eq_getElem (hlength ▸ hlt)
      obtain ⟨g,hg,htask,-,-⟩ := exists_handle_apply hi e
      obtain rfl : g = h' := Option.some.inj (hg.symm.trans hi')
      rw [htask,hs.task_eq i _ hi]

theorem run (hs : s.Sound) (es : List (Event ρ μ)) : (s.run es).Sound := by
  induction es generalizing s with
  | nil => exact hs
  | cons e es ih => exact ih (hs.apply e)

/-- No run brings anything new for a task that has a handle. -/
theorem effects_brings_not (hs : s.Sound) (hi : s.handles[i]? = some h) (kind : RequestKind)
    (es : List (Event ρ μ)) :
    ∀ x ∈ s.effects kind es, ¬ x.Brings h.task := by
  induction es generalizing s h with
  | nil => exact fun _ hx => absurd hx List.not_mem_nil
  | cons e es ih =>
    intro x hx
    rcases List.mem_append.mp hx with hx | hx
    · exact hs.effect_brings_not hi x hx
    · obtain ⟨h',hi',htask,-,-⟩ := exists_handle_apply hi e
      exact htask ▸ ih (hs.apply e) hi' x hx

end Sound

theorem sound_new : (new : Supervisor ρ μ).Sound where
  workers kind := by cases kind <;> exact Worker.sound_new _ _
  nextTask_eq := rfl
  task_eq _ _ h := by simp [new] at h

end Supervisor

end DrawFormula.Worker
