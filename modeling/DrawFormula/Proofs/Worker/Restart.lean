import DrawFormula.Proofs.Worker.Reading
import DrawFormula.Proofs.Worker.Runs

/-! # A new start settles the pending tasks

When a worker is started anew, every pending task but the dropped one gets what was sent for it and,
if no last message is among this, a failure behind it. From then on nothing more comes for any of
these tasks: a settled task reads its buffer to the end, whatever else happens, and a task that was
dropped or forgotten reads nothing.
-/
namespace DrawFormula.Worker
open Mail
variable {ρ μ : Type} [Mail μ]

/-! ## Tasks for which nothing is to come -/

/-- Whether neither a request nor work nor a message on the queue is there for a task. -/
structure Quiet (w : Worker ρ μ) (t : TaskId) : Prop where
  requests : ∀ r ∈ w.requests, r.1 ≠ t
  working : ∀ ms, w.working ≠ some (t,ms)
  responses : ∀ r ∈ w.responses, r.1 ≠ t

section
variable {ρ μ : Type} {w : Worker ρ μ} {t : TaskId}

theorem quiet_start (w : Worker ρ μ) (t : TaskId) : w.start.Quiet t where
  requests _ hr := absurd hr List.not_mem_nil
  working _ := nofun
  responses _ hr := absurd hr List.not_mem_nil

theorem Quiet.ensureStarted (h : w.Quiet t) : w.ensureStarted.Quiet t := by
  unfold Worker.ensureStarted
  split
  · exact h
  · exact quiet_start w t

theorem Quiet.respond (h : w.Quiet t) {u : TaskId} (hu : u ≠ t) (m : μ) :
    (w.respond u m).Quiet t := by
  refine ⟨?_,h.working,fun r hr => ?_⟩
  · rw [requests_respond]
    exact h.requests
  · rcases w.mem_responses_respond u hr with hr | rfl
    · exact h.responses r hr
    · exact hu

theorem Quiet.take (h : w.Quiet t) (answer : ρ → List μ) : (w.take answer).Quiet t := by
  rcases w.take_cases answer with hsame | ⟨u,request,rest,sent,-,-,hq,htake⟩
  · rwa [hsame]
  · have hrequests : w.requests = (u,request) :: rest := by simp [Worker.requests,hq]
    have hu : u ≠ t := h.requests (u,request) (hrequests ▸ List.mem_cons_self)
    rw [htake]
    refine ⟨fun r hr => h.requests r ?_,fun ms hms => ?_,fun r hr => h.responses r ?_⟩
    · rw [hrequests]
      exact List.mem_cons_of_mem _ hr
    · exact hu (congrArg Prod.fst (Option.some.inj hms))
    · simpa [Worker.responses,hq] using hr

theorem Quiet.ne_of_working (h : w.Quiet t) {u : TaskId} {ms : List μ}
    (hw : w.working = some (u,ms)) : u ≠ t := by
  rintro rfl
  exact h.working ms hw

theorem Quiet.emit (h : w.Quiet t) : w.emit.Quiet t := by
  rcases w.emit_cases with ⟨hsame,-⟩ | ⟨u,-,-,hemit⟩ | ⟨u,m,rest,-,hw,-,hemit⟩
  · rwa [hsame]
  · rw [hemit]
    exact ⟨h.requests,fun _ => nofun,h.responses⟩
  · have hu := h.ne_of_working hw
    have hsent := h.respond hu m
    rw [hemit]
    refine ⟨hsent.requests,fun ms hms => ?_,hsent.responses⟩
    cases rest with
    | nil => cases hms
    | cons m' rest => exact hu (congrArg Prod.fst (Option.some.inj hms))

theorem Quiet.messagesFor_emitted (h : w.Quiet t) : messagesFor t w.emitted = [] := by
  rcases w.emit_cases with ⟨-,hm⟩ | ⟨_,-,hm,-⟩ | ⟨u,m,rest,-,hw,hm,-⟩
  · rw [hm,messagesFor_nil]
  · rw [hm,messagesFor_nil]
  · rw [hm]
    exact messagesFor_eq_nil_iff.mpr fun r hr => List.mem_singleton.mp hr ▸ h.ne_of_working hw

theorem Quiet.die (h : w.Quiet t) : w.die.Quiet t := by
  unfold Worker.die
  split
  · exact ⟨h.requests,fun _ => nofun,h.responses⟩
  · exact h

theorem Quiet.stop (h : w.Quiet t) : w.stop.Quiet t := ⟨h.requests,fun _ => nofun,h.responses⟩

theorem Quiet.messagesFor_responses (h : w.Quiet t) : messagesFor t w.responses = [] :=
  messagesFor_eq_nil_iff.mpr h.responses

/-- What waits for a task for which nothing is to come is in its buffer. -/
theorem Quiet.waiting_eq (h : w.Quiet t) : w.waiting t = (bufferOf t w.pending).getD [] := by
  rw [Worker.waiting_eq,h.messagesFor_responses,List.append_nil]

theorem Quiet.waiting_ensureStarted (h : w.Quiet t) :
    w.ensureStarted.waiting t = w.waiting t := by
  rw [h.waiting_eq,h.ensureStarted.waiting_eq,pending_ensureStarted]

end

theorem quiet_restart (w : Worker ρ μ) (dropped : Option TaskId) (t : TaskId) :
    (w.restart dropped).Quiet t where
  requests _ hr := absurd hr List.not_mem_nil
  working _ := nofun
  responses _ hr := absurd hr List.not_mem_nil

variable {w : Worker ρ μ} {t : TaskId} {e : Event ρ μ}

theorem Quiet.apply (h : w.Quiet t) (he : ¬ e.Brings t) : (w.apply e).Quiet t := by
  cases e with
  | register u | forget u => exact ⟨h.requests,h.working,h.responses⟩
  | send u request =>
    have hs := h.ensureStarted
    refine ⟨fun r hr => ?_,hs.working,fun r hr => hs.responses r ?_⟩
    · rcases w.mem_requests_send u request hr with hr | rfl
      · exact hs.requests r hr
      · exact he
    · rwa [Worker.apply,responses_send] at hr
  | ensureStarted => exact h.ensureStarted
  | arrive u m => exact h.respond he m
  | take how => exact h.take how.answer
  | emit => exact h.emit
  | die => exact h.die
  | stop => exact h.stop
  | restart dropped => exact quiet_restart w dropped t
  | receive u =>
    refine ⟨?_,?_,fun r hr => h.responses r ((w.responses_receive u).subset hr)⟩
    · rw [Worker.apply,requests_receive]
      exact h.requests
    · rw [Worker.apply,working_receive]
      exact h.working

/-- For a task that is not pending and for which nothing is to come nothing is read. -/
theorem Quiet.delivers_nothing (h : w.Quiet t) (ht : w.registered t = false) (e : Event ρ μ) :
    messagesFor t (w.delivered e) = [] := by
  by_cases he : e.Touches t
  · cases e with
    | receive u =>
      obtain rfl : u = t := he
      have hwaiting : w.waiting u = [] := by
        rw [w.waiting_of_unregistered ht,h.messagesFor_responses]
      simp [delivered,receive_fst,hwaiting]
    | _ => rfl
  · exact delivered_of_untouched he

theorem Quiet.messagesFor_sent (h : w.Quiet t) (he : ¬ e.Brings t) :
    messagesFor t (w.sent e) = [] := by
  cases e with
  | arrive u m => exact messagesFor_eq_nil_iff.mpr fun r hr => List.mem_singleton.mp hr ▸ he
  | emit => exact h.messagesFor_emitted
  | _ => rfl

/-- A task for which nothing is to come and whose last message waits keeps what waits for it, except
for what it reads. -/
theorem Quiet.keeps_settled (h : w.Quiet t) (hq : w.queues.isSome = true)
    (ht : w.registered t = true) (hlast : hasLast (w.waiting t) = true) (hb : ¬ e.Brings t)
    (hr : ¬ e.Removes t) :
    ((w.apply e).queues.isSome = true ∧ (w.apply e).registered t = true) ∧
      messagesFor t (w.delivered e) ++ (w.apply e).waiting t = w.waiting t := by
  have hregisters : ¬ e.Registers t := by
    cases e with
    | register u | send u request => exact hb
    | forget u => exact hr
    | _ => exact id
  -- without a new start this is the routing of messages; the other events are left
  have hsame : (w.apply e).starts = w.starts →
      ((w.apply e).queues.isSome = true ∧ (w.apply e).registered t = true) ∧
        messagesFor t (w.delivered e) ++ (w.apply e).waiting t = w.waiting t := by
    intro hs
    have hstep := waiting_apply hq ht hregisters hs
    rwa [h.messagesFor_sent hb,List.append_nil] at hstep
  cases e with
  | register u | forget u | arrive u m | stop => exact hsame rfl
  | take how => exact hsame (w.starts_take how.answer)
  | emit => exact hsame w.starts_emit
  | die => exact hsame w.starts_die
  | receive u => exact hsame (w.starts_receive u)
  | send u request =>
    have hne : t ≠ u := fun htu => hb htu.symm
    refine ⟨⟨?_,by simp [Worker.apply,ht]⟩,?_⟩
    · exact (w.isSome_queues_send u request).trans (w.isSome_queues_ensureStarted fun _ => hq)
    · exact (w.waiting_send_of_ne request hne).trans h.waiting_ensureStarted
  | ensureStarted =>
    refine ⟨⟨w.isSome_queues_ensureStarted fun _ => hq,?_⟩,h.waiting_ensureStarted⟩
    rwa [Worker.apply,registered_ensureStarted]
  | restart dropped =>
    have hd : some t ≠ dropped := fun hd => hr hd.symm
    refine ⟨⟨rfl,by simp [Worker.apply,ht,hd]⟩,?_⟩
    simp [Worker.apply,delivered,waiting_restart ht hd,settleBuffer_eq,hlast]

/-! ## Runs after a new start -/

theorem Quiet.run_delivers_nothing {es : List (Event ρ μ)} (h : w.Quiet t)
    (ht : w.registered t = false) (hes : ∀ e ∈ es, ¬ e.Brings t) :
    messagesFor t (w.allDelivered es) = [] := by
  induction es generalizing w with
  | nil => rfl
  | cons e es ih =>
    have hrest := ih (h.apply (hes e List.mem_cons_self))
      (unregistered_apply ht (hes e List.mem_cons_self))
      fun e' he' => hes e' (List.mem_cons_of_mem e he')
    rw [allDelivered,messagesFor_append,h.delivers_nothing ht,hrest]
    rfl

theorem Quiet.run_sends_nothing {es : List (Event ρ μ)} (h : w.Quiet t)
    (hes : ∀ e ∈ es, ¬ e.Brings t) : messagesFor t (w.allSent es) = [] := by
  induction es generalizing w with
  | nil => rfl
  | cons e es ih =>
    have hrest := ih (h.apply (hes e List.mem_cons_self))
      fun e' he' => hes e' (List.mem_cons_of_mem e he')
    rw [allSent,messagesFor_append,h.messagesFor_sent (hes e List.mem_cons_self),hrest]
    rfl

theorem Quiet.run_keeps_settled {es : List (Event ρ μ)} (h : w.Quiet t)
    (hq : w.queues.isSome = true) (ht : w.registered t = true)
    (hlast : hasLast (w.waiting t) = true) (hes : ∀ e ∈ es, ¬ e.Brings t ∧ ¬ e.Removes t)
    (hread : hasLast (messagesFor t (w.allDelivered es)) = false) :
    messagesFor t (w.allDelivered es) ++ (w.run es).waiting t = w.waiting t := by
  induction es generalizing w with
  | nil => rfl
  | cons e es ih =>
    obtain ⟨hb,hr⟩ := hes e List.mem_cons_self
    obtain ⟨⟨hq',ht'⟩,hstep⟩ := h.keeps_settled hq ht hlast hb hr
    rw [allDelivered,messagesFor_append,hasLast_append,Bool.or_eq_false_iff] at hread
    have hlast' : hasLast ((w.apply e).waiting t) = true := by
      rwa [← hstep,hasLast_append,hread.1,Bool.false_or] at hlast
    have hrest := ih (h.apply hb) hq' ht' hlast'
      (fun e' he' => hes e' (List.mem_cons_of_mem e he')) hread.2
    rw [allDelivered,messagesFor_append,List.append_assoc,← hstep,← hrest]
    rfl

/-! ## Settling -/

theorem Handle.conclusive_audible (h : Handle μ) {ms : List μ} (hms : Conclusive ms) :
    Conclusive (h.audible ms) := by
  obtain ⟨progress,last,rfl,hprogress,hlast⟩ := hms
  unfold audible
  split
  · have hnone := filter_isLast_of_none (hasLast_eq_false_iff.mpr hprogress)
    rw [List.filter_append,hnone,List.nil_append,List.filter_cons_of_pos hlast]
    exact conclusive_singleton hlast
  · exact ⟨progress,last,rfl,hprogress,hlast⟩

/-- What a handle reads of a task with a last message waiting ends with that one. -/
theorem Handle.messages_of_conclusive {h : Handle μ} (w : Worker ρ μ) (he : h.isEnded = false)
    (hw : Conclusive (w.waiting h.task)) :
    (h.messages w).1 = h.audible (w.waiting h.task) ∧ (h.messages w).2.1 = true := by
  obtain ⟨hmessages,hended⟩ := Handle.messages_spec w he
  rw [hw.hasLast] at hmessages hended
  refine ⟨?_,hended⟩
  rw [hmessages,untilLast_of_orderly hw.orderly]
  exact List.append_nil _

/-- A new start with a task dropped leaves every other pending task with what was in its buffer,
then what was on the queue for it, then a failure just if none of these is a last message; so it
ends with its one last message, which its handle reads in the end, whatever happens in between. The
queues are empty, and no task that is not pending reads anything that was sent before. -/
theorem restart_settles (w : Worker ρ μ) (dropped : Option TaskId)
    (h : ∀ t, w.registered t = true → Orderly (w.waiting t)) :
    (w.restart dropped).queues = some ⟨[],[]⟩ ∧
    (∀ t, (w.restart dropped).buffer? t = if some t = dropped then none
      else (w.buffer? t).map fun b => b ++ messagesFor t w.responses ++
        if hasLast (b ++ messagesFor t w.responses) then []
        else [Mail.failure w.restartReason]) ∧
    (∀ t b, (w.restart dropped).buffer? t = some b → Conclusive b ∧
      ∀ later : List (Event ρ μ), (∀ e ∈ later, ¬ e.Brings t ∧ ¬ e.Removes t) →
        hasLast (messagesFor t ((w.restart dropped).allDelivered later)) = false →
        messagesFor t ((w.restart dropped).allDelivered later) ++
            ((w.restart dropped).run later).waiting t = b ∧
          ∀ handle : Handle μ, handle.task = t → handle.isEnded = false →
            (handle.messages ((w.restart dropped).run later)).2.1 = true ∧
              Conclusive (handle.messages ((w.restart dropped).run later)).1) ∧
    ∀ t, (w.restart dropped).buffer? t = none →
      ∀ later : List (Event ρ μ), (∀ e ∈ later, ¬ e.Brings t) →
        messagesFor t ((w.restart dropped).allDelivered later) = [] := by
  have hquiet := quiet_restart w dropped
  refine ⟨rfl,fun t => ?_,fun t b hb => ?_,fun t ht later hlater => ?_⟩
  · refine (w.bufferOf_restart t dropped).trans ?_
    simp only [settleBuffer_eq]
    rfl
  · have hregistered : (w.restart dropped).registered t = true := by rw [registered,hb]; rfl
    have hwaiting : (w.restart dropped).waiting t = b := by rw [waiting,hb]; exact List.append_nil b
    obtain ⟨hd,ht⟩ : some t ≠ dropped ∧ w.registered t = true := by simpa using hregistered
    have hconclusive : Conclusive b := by
      rw [← hwaiting,waiting_restart ht hd]
      exact conclusive_settleBuffer _ (h t ht)
    refine ⟨hconclusive,fun later hlater hread => ?_⟩
    have hkept := (hquiet t).run_keeps_settled rfl hregistered
      (hwaiting ▸ hconclusive.hasLast) hlater hread
    rw [hwaiting] at hkept
    refine ⟨hkept,fun handle htask he => ?_⟩
    have hrest : Conclusive (((w.restart dropped).run later).waiting handle.task) := by
      rw [htask,conclusive_iff]
      have hlast := hconclusive.hasLast
      rw [← hkept,hasLast_append,hread,Bool.false_or] at hlast
      exact ⟨hconclusive.orderly.within (hkept ▸ (List.suffix_append _ _).isInfix),hlast⟩
    obtain ⟨hmessages,hended⟩ := Handle.messages_of_conclusive _ he hrest
    exact ⟨hended,hmessages ▸ handle.conclusive_audible hrest⟩
  · exact (hquiet t).run_delivers_nothing (by rw [registered,ht]; rfl) hlater

/-! ## A worker with three tasks -/

/-- Three tasks are pending: for the first and the second one a message on their progress waits on
the queue, for the third one its last message. -/
def threeTasks : Worker Request Message :=
  ((((((new "verify".toList).start.register 1).register 2).register 3).respond 2
    (.tested 1 2)).respond 3 (.verified [] [])).respond 1 (.tested 1 2)

theorem restart_settles_threeTasks :
    (∀ t, threeTasks.registered t = true → Orderly (threeTasks.waiting t)) ∧
    (threeTasks.restart (some 1)).buffer? 1 = none ∧
    (threeTasks.restart (some 1)).buffer? 2 =
      some [.tested 1 2,.failed threeTasks.restartReason] ∧
    (threeTasks.restart (some 1)).buffer? 3 = some [.verified [] []] ∧
    Conclusive (μ := Message) [.tested 1 2,.failed threeTasks.restartReason] := by
  have horderly : ∀ t, threeTasks.registered t = true → Orderly (threeTasks.waiting t) := by
    intro t ht
    have hthree : 1 = t ∨ 2 = t ∨ 3 = t := by
      simpa [threeTasks,respond,onQueues,registered_eq,register,bufferOf_setBuffer,bufferOf,new,
        start,setBuffer] using ht
    rcases hthree with rfl | rfl | rfl
    · exact List.pairwise_singleton _ _
    · exact List.pairwise_singleton _ _
    · exact List.pairwise_singleton _ _
  obtain ⟨-,hbuffers,hsettled,-⟩ := restart_settles threeTasks (some 1) horderly
  exact ⟨horderly,hbuffers 1,hbuffers 2,hbuffers 3,(hsettled 2 _ rfl).1⟩

end DrawFormula.Worker
