import DrawFormula.Proofs.Worker.Answers
import DrawFormula.Proofs.Worker.Waiting

/-! # Steps of a worker

Tasks are registered and forgotten, requests are sent and taken, messages are sent and read, and a
worker starts and ends. For each of these steps it is said which tasks are pending after it, what
waits for each of them, which requests are in the queue and which task is at hand. As long as the
worker is not started anew, no step loses, repeats, reorders or confuses messages: for each pending
task those that were read and those that wait are those that were sent.
-/
namespace DrawFormula.Worker
open Mail
variable {ρ μ : Type}

section Views
variable (w : Worker ρ μ) (t u : TaskId)

/-! ## Pending tasks -/

@[simp] theorem registered_register :
    (w.register t).registered u = (decide (t = u) || w.registered u) := by
  rw [registered_eq,registered_eq,register,bufferOf_setBuffer]
  by_cases h : t = u <;> simp [h]

theorem waiting_register_self : (w.register t).waiting t = messagesFor t w.responses := by
  rw [waiting_eq,register,bufferOf_setBuffer,if_pos rfl]
  rfl

theorem bufferOf_forget :
    bufferOf u (w.forget t).pending = if u = t then none else bufferOf u w.pending := by
  have h := bufferOf_filter (fun v => decide (v ≠ t)) u w.pending
  rw [forget,h]
  by_cases hu : u = t <;> simp [hu]

@[simp] theorem registered_forget :
    (w.forget t).registered u = (decide (u ≠ t) && w.registered u) := by
  rw [registered_eq,registered_eq,bufferOf_forget]
  by_cases h : u = t <;> simp [h]

theorem waiting_forget_self : (w.forget t).waiting t = messagesFor t w.responses := by
  rw [waiting_eq,bufferOf_forget,if_pos rfl]
  rfl

variable {t u}

theorem waiting_register_of_ne (h : u ≠ t) : (w.register t).waiting u = w.waiting u := by
  rw [waiting_eq,waiting_eq,register,bufferOf_setBuffer,if_neg h.symm]
  rfl

theorem waiting_forget_of_ne (h : u ≠ t) : (w.forget t).waiting u = w.waiting u := by
  rw [waiting_eq,waiting_eq,bufferOf_forget,if_neg h]
  rfl

variable (t u)

/-! ## Starting and sending -/

theorem waiting_start : w.start.waiting t = (bufferOf t w.pending).getD [] := List.append_nil _

theorem ensureStarted_of_alive (h : w.isAlive = true) : w.ensureStarted = w := if_pos h

theorem ensureStarted_of_ended (h : w.isAlive = false) : w.ensureStarted = w.start := by
  rw [ensureStarted,h]
  rfl

@[simp] theorem name_ensureStarted : w.ensureStarted.name = w.name := by
  unfold ensureStarted
  split <;> rfl

@[simp] theorem pending_ensureStarted : w.ensureStarted.pending = w.pending := by
  unfold ensureStarted
  split <;> rfl

@[simp] theorem registered_ensureStarted : w.ensureStarted.registered t = w.registered t := by
  rw [registered_eq,registered_eq,pending_ensureStarted]

@[simp] theorem isAlive_ensureStarted : w.ensureStarted.isAlive = true := by
  unfold ensureStarted
  split
  · next h => exact h
  · rfl

@[simp] theorem starts_ensureStarted :
    w.ensureStarted.starts = if w.isAlive then w.starts else w.starts + 1 := by
  unfold ensureStarted
  split <;> rfl

theorem ensureStarted_of_starts (h : w.ensureStarted.starts = w.starts) : w.ensureStarted = w := by
  cases ha : w.isAlive with
  | true => exact ensureStarted_of_alive w ha
  | false =>
    rw [ensureStarted_of_ended w ha] at h
    exact absurd h (Nat.succ_ne_self w.starts)

theorem isSome_queues_ensureStarted (h : w.isAlive = true → w.queues.isSome = true) :
    w.ensureStarted.queues.isSome = true := by
  unfold ensureStarted
  split
  · next ha => exact h ha
  · rfl

section Send
variable (r : ρ)

@[simp] theorem registered_send :
    (w.send t r).registered u = (decide (t = u) || w.registered u) := by
  have h := w.ensureStarted.registered_register t u
  rwa [registered_ensureStarted] at h

@[simp] theorem isAlive_send : (w.send t r).isAlive = true := w.isAlive_ensureStarted

@[simp] theorem starts_send : (w.send t r).starts = w.ensureStarted.starts := rfl

@[simp] theorem isSome_queues_send :
    (w.send t r).queues.isSome = w.ensureStarted.queues.isSome := Option.isSome_map

@[simp] theorem responses_send : (w.send t r).responses = w.ensureStarted.responses := by
  rw [responses,responses,send,onQueues,Option.map_map]
  rfl

theorem requests_send (h : w.ensureStarted.queues.isSome = true) :
    (w.send t r).requests = w.ensureStarted.requests ++ [(t,r)] := by
  obtain ⟨q,hq⟩ := Option.isSome_iff_exists.mp h
  simp [requests,send,onQueues,register,hq]

theorem mem_requests_send {e : TaskId × ρ} (h : e ∈ (w.send t r).requests) :
    e ∈ w.ensureStarted.requests ∨ e = (t,r) := by
  cases hq : w.ensureStarted.queues with
  | none =>
    have hnone : (w.send t r).queues = none := by simp [send,onQueues,register,hq]
    simp [requests,hnone] at h
  | some q =>
    rw [requests_send w t r (by rw [hq]; rfl)] at h
    simpa using h

theorem waiting_send_self :
    (w.send t r).waiting t = messagesFor t w.ensureStarted.responses := by
  have h := w.ensureStarted.waiting_register_self t
  rw [waiting_eq] at h ⊢
  rw [responses_send]
  exact h

variable {t u}

theorem waiting_send_of_ne (hne : u ≠ t) :
    (w.send t r).waiting u = w.ensureStarted.waiting u := by
  have h := w.ensureStarted.waiting_register_of_ne hne
  rw [waiting_eq] at h ⊢
  rw [responses_send]
  exact h

end Send

/-! ## Working -/

theorem waiting_respond (h : w.queues.isSome = true) (m : μ) :
    (w.respond t m).waiting u = w.waiting u ++ messagesFor u [(t,m)] := by
  obtain ⟨q,hq⟩ := Option.isSome_iff_exists.mp h
  simp [waiting,buffer?,responses,respond,onQueues,hq]

@[simp] theorem requests_respond (m : μ) : (w.respond t m).requests = w.requests := by
  rw [requests,requests,respond,onQueues,Option.map_map]
  rfl

theorem mem_responses_respond {m : μ} {e : TaskId × μ} (h : e ∈ (w.respond t m).responses) :
    e ∈ w.responses ∨ e = (t,m) := by
  cases hq : w.queues with
  | none => simp [responses,respond,onQueues,hq] at h
  | some q => simpa [responses,respond,onQueues,hq] using h

/-- To take a request changes nothing, unless the worker runs, has no task at hand and finds a
request in the queue. -/
theorem take_cases (answer : ρ → List μ) :
    w.take answer = w ∨ ∃ u r rest sent, w.isAlive = true ∧ w.working = none ∧
      w.queues = some ⟨(u,r) :: rest,sent⟩ ∧
      w.take answer = { w with working := some (u,answer r), queues := some ⟨rest,sent⟩ } := by
  unfold take
  split
  · next u r rest sent ha hw hq => exact .inr ⟨u,r,rest,sent,ha,hw,hq,rfl⟩
  · exact .inl rfl

@[simp] theorem name_take (answer : ρ → List μ) : (w.take answer).name = w.name := by
  rcases w.take_cases answer with h | ⟨_,_,_,_,-,-,-,h⟩ <;> rw [h]

@[simp] theorem pending_take (answer : ρ → List μ) : (w.take answer).pending = w.pending := by
  rcases w.take_cases answer with h | ⟨_,_,_,_,-,-,-,h⟩ <;> rw [h]

@[simp] theorem life_take (answer : ρ → List μ) : (w.take answer).life = w.life := by
  rcases w.take_cases answer with h | ⟨_,_,_,_,-,-,-,h⟩ <;> rw [h]

@[simp] theorem registered_take (answer : ρ → List μ) :
    (w.take answer).registered t = w.registered t := by
  rw [registered_eq,registered_eq,pending_take]

@[simp] theorem isAlive_take (answer : ρ → List μ) : (w.take answer).isAlive = w.isAlive := by
  rw [isAlive,isAlive,life_take]

@[simp] theorem starts_take (answer : ρ → List μ) : (w.take answer).starts = w.starts := by
  rcases w.take_cases answer with h | ⟨_,_,_,_,-,-,-,h⟩ <;> rw [h]

@[simp] theorem isSome_queues_take (answer : ρ → List μ) :
    (w.take answer).queues.isSome = w.queues.isSome := by
  rcases w.take_cases answer with h | ⟨_,_,_,_,-,-,hq,h⟩
  · rw [h]
  · rw [h,hq]
    rfl

@[simp] theorem responses_take (answer : ρ → List μ) :
    (w.take answer).responses = w.responses := by
  rcases w.take_cases answer with h | ⟨_,_,_,_,-,-,hq,h⟩
  · rw [h]
  · rw [h,responses,responses,hq]
    rfl

@[simp] theorem waiting_take (answer : ρ → List μ) :
    (w.take answer).waiting t = w.waiting t := by
  rw [waiting_eq,waiting_eq,pending_take,responses_take]

/-- The message that is sent next, with its task. -/
def emitted : List (TaskId × μ) :=
  match w.isAlive, w.working with
  | true, some (t,m :: _) => [(t,m)]
  | _, _ => []

/-- To send the next message changes nothing, unless the worker runs and has a task at hand. -/
theorem emit_cases :
    w.emit = w ∧ w.emitted = [] ∨
    (∃ u, w.working = some (u,[]) ∧ w.emitted = [] ∧ w.emit = { w with working := none }) ∨
    ∃ u m rest, w.isAlive = true ∧ w.working = some (u,m :: rest) ∧ w.emitted = [(u,m)] ∧
      w.emit = { w.respond u m with
        working := if rest.isEmpty then none else some (u,rest) } := by
  unfold emit emitted
  split
  · next u ha hw => exact .inr (.inl ⟨u,hw,by rw [ha,hw],rfl⟩)
  · next u m rest ha hw => exact .inr (.inr ⟨u,m,rest,ha,hw,by rw [ha,hw],rfl⟩)
  · next hnone hsome =>
    refine .inl ⟨rfl,?_⟩
    split
    · next u m rest ha hw => exact absurd hw (hsome u m rest ha)
    · rfl

@[simp] theorem name_emit : w.emit.name = w.name := by
  rcases w.emit_cases with ⟨h,-⟩ | ⟨_,-,-,h⟩ | ⟨_,_,_,-,-,-,h⟩ <;> rw [h]
  rfl

@[simp] theorem pending_emit : w.emit.pending = w.pending := by
  rcases w.emit_cases with ⟨h,-⟩ | ⟨_,-,-,h⟩ | ⟨_,_,_,-,-,-,h⟩ <;> rw [h]
  rfl

@[simp] theorem life_emit : w.emit.life = w.life := by
  rcases w.emit_cases with ⟨h,-⟩ | ⟨_,-,-,h⟩ | ⟨_,_,_,-,-,-,h⟩ <;> rw [h]
  rfl

@[simp] theorem registered_emit : w.emit.registered t = w.registered t := by
  rw [registered_eq,registered_eq,pending_emit]

@[simp] theorem isAlive_emit : w.emit.isAlive = w.isAlive := by
  rw [isAlive,isAlive,life_emit]

@[simp] theorem starts_emit : w.emit.starts = w.starts := by
  rcases w.emit_cases with ⟨h,-⟩ | ⟨_,-,-,h⟩ | ⟨_,_,_,-,-,-,h⟩ <;> rw [h]
  rfl

@[simp] theorem requests_emit : w.emit.requests = w.requests := by
  rcases w.emit_cases with ⟨h,-⟩ | ⟨_,-,-,h⟩ | ⟨u,m,_,-,-,-,h⟩ <;> rw [h]
  · rfl
  · exact w.requests_respond u m

@[simp] theorem isSome_queues_emit : w.emit.queues.isSome = w.queues.isSome := by
  rcases w.emit_cases with ⟨h,-⟩ | ⟨_,-,-,h⟩ | ⟨_,_,_,-,-,-,h⟩ <;> rw [h]
  exact Option.isSome_map

theorem waiting_emit (hq : w.queues.isSome = true) :
    w.emit.waiting t = w.waiting t ++ messagesFor t w.emitted := by
  rcases w.emit_cases with ⟨h,he⟩ | ⟨_,-,he,h⟩ | ⟨u,m,_,-,-,he,h⟩ <;> rw [h,he]
  · simp
  · exact (List.append_nil _).symm
  · exact w.waiting_respond u t hq m

/-! ## Ending -/

theorem die_of_alive (h : w.isAlive = true) :
    w.die = { w with life := .ended, working := none } := if_pos h

theorem die_of_ended (h : w.isAlive = false) : w.die = w := by
  rw [die,h]
  rfl

@[simp] theorem isAlive_die : w.die.isAlive = false := by
  cases h : w.isAlive with
  | true =>
    rw [die_of_alive w h]
    rfl
  | false => rwa [die_of_ended w h]

@[simp] theorem name_die : w.die.name = w.name := by
  unfold die
  split <;> rfl

@[simp] theorem pending_die : w.die.pending = w.pending := by
  unfold die
  split <;> rfl

@[simp] theorem registered_die : w.die.registered t = w.registered t := by
  rw [registered_eq,registered_eq,pending_die]

@[simp] theorem queues_die : w.die.queues = w.queues := by
  unfold die
  split <;> rfl

@[simp] theorem starts_die : w.die.starts = w.starts := by
  unfold die
  split <;> rfl

@[simp] theorem waiting_die : w.die.waiting t = w.waiting t := by
  rw [waiting,waiting,buffer?,responses,pending_die,queues_die]
  rfl

@[simp] theorem isAlive_stop : w.stop.isAlive = false := rfl

@[simp] theorem waiting_stop : w.stop.waiting t = w.waiting t := rfl

/-! ## Restarting -/

variable [Mail μ] (dropped : Option TaskId)

theorem pending_restart : (w.restart dropped).pending =
    (routeAll (w.pending.filter fun e => decide (some e.1 ≠ dropped)) w.responses).map fun (t,b) =>
      (t,settleBuffer w.restartReason b) := rfl

theorem bufferOf_restart : bufferOf t (w.restart dropped).pending =
    if some t = dropped then none
    else (bufferOf t w.pending).map fun b =>
      settleBuffer w.restartReason (b ++ messagesFor t w.responses) := by
  have hkept := bufferOf_filter (fun u => decide (some u ≠ dropped)) t w.pending
  have hsettled := bufferOf_map (settleBuffer w.restartReason) t
    (routeAll (w.pending.filter fun e => decide (some e.1 ≠ dropped)) w.responses)
  rw [bufferOf_routeAll,hkept,Option.map_map] at hsettled
  rw [pending_restart,hsettled]
  by_cases h : some t = dropped
  · simp [h]
  · simp only [h,ne_eq,not_false_eq_true,decide_true,if_true,if_false]
    rfl

@[simp] theorem registered_restart :
    (w.restart dropped).registered t = (decide (some t ≠ dropped) && w.registered t) := by
  rw [registered_eq,registered_eq,bufferOf_restart]
  by_cases h : some t = dropped <;> simp [h]

end Views

section Settling
variable [Mail μ]

theorem settleBuffer_eq (reason : Text) (b : List μ) :
    settleBuffer reason b = b ++ if hasLast b then [] else [Mail.failure reason] := by
  unfold settleBuffer hasLast
  split
  · exact (List.append_nil b).symm
  · rfl

theorem hasLast_settleBuffer (reason : Text) (b : List μ) :
    hasLast (settleBuffer reason b) = true := by
  rw [settleBuffer_eq,hasLast_append]
  split
  · next h => simp [h]
  · simp [Mail.isLast_failure]

theorem conclusive_settleBuffer (reason : Text) {b : List μ} (h : Orderly b) :
    Conclusive (settleBuffer reason b) := by
  rw [conclusive_iff]
  refine ⟨?_,hasLast_settleBuffer reason b⟩
  rw [settleBuffer_eq]
  split
  · rwa [List.append_nil]
  · next hnone => exact orderly_append (by simpa using hnone) (List.pairwise_singleton _ _)

theorem waiting_restart {w : Worker ρ μ} {t : TaskId} {dropped : Option TaskId}
    (ht : w.registered t = true) (hd : some t ≠ dropped) :
    (w.restart dropped).waiting t = settleBuffer w.restartReason (w.waiting t) := by
  obtain ⟨b,hb⟩ := Option.isSome_iff_exists.mp ht
  have hbuffer : bufferOf t w.pending = some b := hb
  rw [waiting_eq,bufferOf_restart,if_neg hd,waiting_eq,hbuffer]
  exact List.append_nil _

end Settling

end DrawFormula.Worker
