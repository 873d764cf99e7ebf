import DrawFormula.Proofs.Worker.Steps

/-! # Runs of a worker

A run is any sequence of steps of a worker and of those who own it: tasks are registered and
forgotten, requests are sent, messages arrive for whichever task and are read in whichever order,
and the worker works, dies, is stopped and is started anew. As long as it is not started anew, no
message of a pending task is lost, repeated, moved before another one or read for another task.
-/
namespace DrawFormula.Worker
open Mail
variable {ρ μ : Type} [Mail μ]

/-- What can happen to a worker. -/
inductive Event (ρ μ : Type) [Mail μ] where
  | register (t : TaskId)
  | forget (t : TaskId)
  | send (t : TaskId) (request : ρ)
  | ensureStarted
  /-- A message arrives on the queue, whoever sent it. -/
  | arrive (t : TaskId) (m : μ)
  | take (how : Answering ρ μ)
  | emit
  | die
  | stop
  | restart (dropped : Option TaskId)
  | receive (t : TaskId)

/-- The worker after an event. -/
def apply (w : Worker ρ μ) : Event ρ μ → Worker ρ μ
  | .register t => w.register t
  | .forget t => w.forget t
  | .send t request => w.send t request
  | .ensureStarted => w.ensureStarted
  | .arrive t m => w.respond t m
  | .take how => w.take how.answer
  | .emit => w.emit
  | .die => w.die
  | .stop => w.stop
  | .restart dropped => w.restart dropped
  | .receive t => (w.receive t).2

/-- What an event hands out to those who read, with the task that is read for. -/
def delivered (w : Worker ρ μ) : Event ρ μ → List (TaskId × μ)
  | .receive t => (w.receive t).1.toList.map fun m => (t,m)
  | _ => []

/-- What an event puts on the queue. -/
def sent (w : Worker ρ μ) : Event ρ μ → List (TaskId × μ)
  | .arrive t m => [(t,m)]
  | .emit => w.emitted
  | _ => []

/-- The worker after a run. -/
def run (w : Worker ρ μ) (es : List (Event ρ μ)) : Worker ρ μ := es.foldl apply w

/-- All that a run hands out. -/
def allDelivered (w : Worker ρ μ) : List (Event ρ μ) → List (TaskId × μ)
  | [] => []
  | e :: es => w.delivered e ++ (w.apply e).allDelivered es

/-- All that a run puts on the queue. -/
def allSent (w : Worker ρ μ) : List (Event ρ μ) → List (TaskId × μ)
  | [] => []
  | e :: es => w.sent e ++ (w.apply e).allSent es

/-- Whether an event is about one task, and about this one. -/
def Event.Touches (t : TaskId) : Event ρ μ → Prop
  | .register u | .forget u | .send u _ | .arrive u _ | .receive u => u = t
  | _ => False

/-- Whether an event gives a task a buffer or takes its buffer away. -/
def Event.Registers (t : TaskId) : Event ρ μ → Prop
  | .register u | .forget u | .send u _ => u = t
  | _ => False

/-- Whether an event brings something new for a task. -/
def Event.Brings (t : TaskId) : Event ρ μ → Prop
  | .register u | .send u _ | .arrive u _ => u = t
  | _ => False

/-- Whether an event takes a task from the pending ones. -/
def Event.Removes (t : TaskId) : Event ρ μ → Prop
  | .forget u => u = t
  | .restart dropped => dropped = some t
  | _ => False

/-- Whether an event starts a worker that does not run and leaves the pending tasks as they are. -/
def Event.Starts : Event ρ μ → Prop
  | .send _ _ | .ensureStarted => True
  | _ => False

variable (w : Worker ρ μ) (t : TaskId)

theorem run_append (es more : List (Event ρ μ)) : w.run (es ++ more) = (w.run es).run more :=
  List.foldl_append

theorem allSent_append (es more : List (Event ρ μ)) :
    w.allSent (es ++ more) = w.allSent es ++ (w.run es).allSent more := by
  induction es generalizing w with
  | nil => rfl
  | cons e es ih =>
    rw [List.cons_append,allSent,allSent,ih,List.append_assoc]
    rfl

theorem name_apply (e : Event ρ μ) : (w.apply e).name = w.name := by
  cases e with
  | register u | forget u | arrive u m | stop | restart dropped => rfl
  | send u request => exact w.name_ensureStarted
  | ensureStarted => exact w.name_ensureStarted
  | take how => exact w.name_take how.answer
  | emit => exact w.name_emit
  | die => exact w.name_die
  | receive u => exact w.name_receive u

theorem name_run (es : List (Event ρ μ)) : (w.run es).name = w.name := by
  induction es generalizing w with
  | nil => rfl
  | cons e es ih => exact (ih (w.apply e)).trans (w.name_apply e)

theorem exitReason_run (es : List (Event ρ μ)) : (w.run es).exitReason = w.exitReason := by
  unfold exitReason
  rw [name_run]

/-! ## Without a new start -/

theorem starts_apply (e : Event ρ μ) : w.starts ≤ (w.apply e).starts := by
  cases e with
  | register u | forget u | arrive u m | stop => exact Nat.le_refl _
  | send u request =>
    simp only [apply,starts_send,starts_ensureStarted]
    split <;> omega
  | ensureStarted =>
    simp only [apply,starts_ensureStarted]
    split <;> omega
  | take how => exact Nat.le_of_eq (w.starts_take how.answer).symm
  | emit => exact Nat.le_of_eq w.starts_emit.symm
  | die => exact Nat.le_of_eq w.starts_die.symm
  | restart dropped => exact Nat.le_succ w.starts
  | receive u => exact Nat.le_of_eq (w.starts_receive u).symm

theorem starts_run (es : List (Event ρ μ)) : w.starts ≤ (w.run es).starts := by
  induction es generalizing w with
  | nil => exact Nat.le_refl _
  | cons e es ih => exact Nat.le_trans (w.starts_apply e) (ih (w.apply e))

variable {w t}

theorem starts_of_run_cons {e : Event ρ μ} {es : List (Event ρ μ)}
    (h : (w.run (e :: es)).starts = w.starts) : (w.apply e).starts = w.starts ∧
      ((w.apply e).run es).starts = (w.apply e).starts := by
  have hone : (w.apply e).starts = w.starts :=
    Nat.le_antisymm (h ▸ (w.apply e).starts_run es) (w.starts_apply e)
  exact ⟨hone,h.trans hone.symm⟩

/-- One event neither loses nor adds, and confuses nothing: what it hands out for a pending task
and what waits after it are what waited before it and what it puts on the queue. -/
theorem waiting_apply {e : Event ρ μ} (hq : w.queues.isSome = true)
    (ht : w.registered t = true) (he : ¬ e.Registers t) (hs : (w.apply e).starts = w.starts) :
    ((w.apply e).queues.isSome = true ∧ (w.apply e).registered t = true) ∧
      messagesFor t (w.delivered e) ++ (w.apply e).waiting t =
        w.waiting t ++ messagesFor t (w.sent e) := by
  cases e with
  | register u =>
    have hne : t ≠ u := fun h => he h.symm
    exact ⟨⟨hq,by simp [apply,ht]⟩,by simp [apply,delivered,sent,waiting_register_of_ne w hne]⟩
  | forget u =>
    have hne : t ≠ u := fun h => he h.symm
    exact ⟨⟨hq,by simp [apply,ht,hne]⟩,by simp [apply,delivered,sent,waiting_forget_of_ne w hne]⟩
  | send u request =>
    have hne : t ≠ u := fun h => he h.symm
    have hstarted : w.ensureStarted = w := ensureStarted_of_starts w hs
    refine ⟨⟨by simpa [apply,hstarted] using hq,by simp [apply,ht]⟩,?_⟩
    simp [apply,delivered,sent,waiting_send_of_ne w request hne,hstarted]
  | ensureStarted =>
    have hstarted : w.ensureStarted = w := ensureStarted_of_starts w hs
    simp [apply,delivered,sent,hstarted,hq,ht]
  | arrive u m =>
    exact ⟨⟨Option.isSome_map.trans hq,ht⟩,w.waiting_respond u t hq m⟩
  | take how =>
    refine ⟨⟨(w.isSome_queues_take how.answer).trans hq,?_⟩,?_⟩
    · simpa [apply] using ht
    · simp [apply,delivered,sent]
  | emit =>
    refine ⟨⟨w.isSome_queues_emit.trans hq,?_⟩,w.waiting_emit t hq⟩
    simpa [apply] using ht
  | die =>
    refine ⟨⟨by simpa [apply] using hq,?_⟩,by simp [apply,delivered,sent]⟩
    simpa [apply] using ht
  | stop => exact ⟨⟨hq,ht⟩,by simp [apply,delivered,sent]⟩
  | restart dropped => exact absurd hs (Nat.succ_ne_self w.starts)
  | receive u =>
    refine ⟨⟨(w.isSome_queues_receive u).trans hq,(w.registered_receive u t).trans ht⟩,?_⟩
    simp only [apply,delivered,sent,messagesFor_nil,List.append_nil,receive_fst]
    by_cases hu : t = u
    · subst hu
      rw [waiting_receive_self]
      cases w.waiting t <;> simp [messagesFor_cons]
    · rw [waiting_receive_of_ne w hu ht]
      cases w.waiting u <;> simp [messagesFor_cons,Ne.symm hu]

/-- As long as the worker is not started anew, the messages of a pending task that were read, then
those in its buffer, then those on the queue are the messages that were sent for it, in order. -/
theorem waiting_run {es : List (Event ρ μ)} (hq : w.queues.isSome = true)
    (ht : w.registered t = true) (hes : ∀ e ∈ es, ¬ e.Registers t)
    (hs : (w.run es).starts = w.starts) :
    ((w.run es).queues.isSome = true ∧ (w.run es).registered t = true) ∧
      messagesFor t (w.allDelivered es) ++ (w.run es).waiting t =
        w.waiting t ++ messagesFor t (w.allSent es) := by
  induction es generalizing w with
  | nil => exact ⟨⟨hq,ht⟩,by simp [allDelivered,allSent,run]⟩
  | cons e es ih =>
    obtain ⟨hone,hmore⟩ := starts_of_run_cons hs
    obtain ⟨⟨hq',ht'⟩,hstep⟩ := waiting_apply hq ht (hes e List.mem_cons_self) hone
    obtain ⟨hafter,hrest⟩ := ih hq' ht' (fun e' he' => hes e' (List.mem_cons_of_mem e he')) hmore
    refine ⟨hafter,?_⟩
    rw [allDelivered,allSent,messagesFor_append,messagesFor_append,List.append_assoc,
      ← List.append_assoc (w.waiting t),← hstep,List.append_assoc,← hrest]
    rfl

/-! ## Without a task -/

/-- A task that is not pending stays so until something new comes for it. -/
theorem unregistered_apply {e : Event ρ μ} (ht : w.registered t = false) (he : ¬ e.Brings t) :
    (w.apply e).registered t = false := by
  cases e with
  | register u =>
    have hne : u ≠ t := he
    simp [apply,ht,hne]
  | send u request =>
    have hne : u ≠ t := he
    simp [apply,ht,hne]
  | forget u => simp [apply,ht]
  | restart dropped => simp [apply,ht]
  | ensureStarted => simpa [apply] using ht
  | arrive u m | stop => exact ht
  | take how => simpa [apply] using ht
  | emit => simpa [apply] using ht
  | die => simpa [apply] using ht
  | receive u => exact (w.registered_receive u t).trans ht

theorem unregistered_run {es : List (Event ρ μ)} (ht : w.registered t = false)
    (hes : ∀ e ∈ es, ¬ e.Brings t) : (w.run es).registered t = false := by
  induction es generalizing w with
  | nil => exact ht
  | cons e es ih =>
    exact ih (unregistered_apply ht (hes e List.mem_cons_self))
      fun e' he' => hes e' (List.mem_cons_of_mem e he')

/-- A task that is pending after events that bring nothing new for it was pending before them. -/
theorem registered_of_run {es : List (Event ρ μ)} (ht : (w.run es).registered t = true)
    (hes : ∀ e ∈ es, ¬ e.Brings t) : w.registered t = true := by
  cases hw : w.registered t with
  | true => rfl
  | false =>
    rw [unregistered_run hw hes] at ht
    cases ht

theorem Event.touches_of_registers {e : Event ρ μ} (h : e.Registers t) : e.Touches t := by
  cases e with
  | register u | forget u | send u _ => exact h
  | _ => exact h.elim

theorem Event.touches_of_brings {e : Event ρ μ} (h : e.Brings t) : e.Touches t := by
  cases e with
  | register u | send u _ | arrive u _ => exact h
  | _ => exact h.elim

theorem delivered_of_untouched {e : Event ρ μ} (he : ¬ e.Touches t) :
    messagesFor t (w.delivered e) = [] := by
  cases e with
  | receive u =>
    refine messagesFor_eq_nil_iff.mpr fun r hr => ?_
    obtain ⟨m,-,rfl⟩ := List.mem_map.mp hr
    exact he
  | _ => rfl

/-- For a pending task that no event is about, what is sent for it waits behind the rest. -/
theorem waiting_run_of_untouched {es : List (Event ρ μ)} (hq : w.queues.isSome = true)
    (ht : w.registered t = true) (hes : ∀ e ∈ es, ¬ e.Touches t)
    (hs : (w.run es).starts = w.starts) :
    ((w.run es).queues.isSome = true ∧ (w.run es).registered t = true) ∧
      (w.run es).waiting t = w.waiting t ++ messagesFor t (w.allSent es) := by
  have hnone : messagesFor t (w.allDelivered es) = [] := by
    clear hq ht hs
    induction es generalizing w with
    | nil => rfl
    | cons e es ih =>
      have hrest := ih (w := w.apply e) fun e' he' => hes e' (List.mem_cons_of_mem e he')
      rw [allDelivered,messagesFor_append,delivered_of_untouched (hes e List.mem_cons_self),hrest]
      rfl
  obtain ⟨hafter,hsame⟩ := waiting_run hq ht
    (fun e he hr => hes e he (Event.touches_of_registers hr)) hs
  rw [hnone,List.nil_append] at hsame
  exact ⟨hafter,hsame⟩

/-! ## Without a running worker -/

theorem isAlive_apply_of_ended {e : Event ρ μ} (hd : w.isAlive = false)
    (hs : (w.apply e).starts = w.starts) : (w.apply e).isAlive = false := by
  have hstarted (h : w.ensureStarted.starts = w.starts) : w.ensureStarted.isAlive = false := by
    rwa [ensureStarted_of_starts w h]
  have hlife (v : Worker ρ μ) (hv : v.life = w.life) : v.isAlive = false := by
    rwa [isAlive,hv]
  cases e with
  | register u | forget u | arrive u m => exact hlife _ rfl
  | send u request => exact hstarted hs
  | ensureStarted => exact hstarted hs
  | take how => exact hlife _ (w.life_take how.answer)
  | emit => exact hlife _ w.life_emit
  | die => exact w.isAlive_die
  | stop => exact w.isAlive_stop
  | restart dropped => exact absurd hs (Nat.succ_ne_self w.starts)
  | receive u => exact hlife _ (w.life_receive u)

/-- A worker that does not run sends nothing before it is started anew. -/
theorem run_of_ended {es : List (Event ρ μ)} (hd : w.isAlive = false)
    (hs : (w.run es).starts = w.starts) (hes : ∀ e ∈ es, ¬ e.Brings t) :
    (w.run es).isAlive = false ∧ messagesFor t (w.allSent es) = [] := by
  induction es generalizing w with
  | nil => exact ⟨hd,rfl⟩
  | cons e es ih =>
    obtain ⟨hone,hmore⟩ := starts_of_run_cons hs
    obtain ⟨hafter,hrest⟩ := ih (isAlive_apply_of_ended hd hone) hmore
      fun e' he' => hes e' (List.mem_cons_of_mem e he')
    refine ⟨hafter,?_⟩
    have hnone : messagesFor t (w.sent e) = [] := by
      cases e with
      | arrive u m =>
        exact messagesFor_eq_nil_iff.mpr fun r hr =>
          List.mem_singleton.mp hr ▸ hes _ List.mem_cons_self
      | emit => simp [sent,emitted,hd]
      | _ => rfl
    rw [allSent,messagesFor_append,hnone,hrest]
    rfl

end DrawFormula.Worker
