import DrawFormula.Proofs.Worker.Handles

/-! # Messages come out in order

As long as a worker is not started anew, what is passed on through the handle of a task, and what it
would pass on from then on, is what the worker sends for that task, message by message, whatever
happens at other handles. The last message is the end of it, and a worker that ends before it gives
a failure in its place. Of a cancelled search only that last message comes out.
-/
namespace DrawFormula.Worker
open Mail
variable {ρ μ : Type} [Mail μ]

/-! ## After the last message -/

/-- Once the last message that waits for a task is read, nothing more is to come for it. -/
theorem Sound.quiet_of_last {w : Worker ρ μ} {next t : TaskId} (hs : w.Sound next) {m : μ}
    {rest : List μ} (hw : w.waiting t = m :: rest) (hm : Mail.isLast m = true) :
    rest = [] ∧ ((w.receive t).2.forget t).Quiet t := by
  have hbehind : rest ++ w.atHand t = [] := by
    have horderly := hs.orderly t
    rw [outlook,hw,List.cons_append] at horderly
    exact horderly.eq_nil_of_cons hm
  obtain ⟨hrest,hhand⟩ := List.append_eq_nil_iff.mp hbehind
  refine ⟨hrest,⟨fun r hr => ?_,fun ms hms => ?_,messagesFor_eq_nil_iff.mp ?_⟩⟩
  · -- a request in the queue would mean that nothing was sent for the task yet
    rintro rfl
    have hsilent := hs.requested_silent r.1 (List.mem_map_of_mem (w.requests_receive r.1 ▸ hr))
    rw [outlook,hw] at hsilent
    cases hsilent
  · -- work at hand would mean that its last message is still to be sent
    have hworking : w.working = some (t,ms) := (w.working_receive t).symm.trans hms
    have hlast := (hs.working_alive _ hworking).2
    rw [atHand_of_some hworking,if_pos rfl] at hhand
    rw [hhand] at hlast
    cases hlast
  · have hempty := w.waiting_receive_self t
    rw [hw,List.tail_cons,hrest,waiting_eq] at hempty
    exact (List.append_eq_nil_iff.mp hempty).2

namespace Supervisor
variable {s : Supervisor ρ μ} {i : ℕ} {h : Handle μ}

/-! ## What comes out at a handle -/

/-- What the worker sends in a run for the task of a handle. -/
def sentFor (s : Supervisor ρ μ) (i : ℕ) (es : List (Event ρ μ)) : List μ :=
  match s.handles[i]? with
  | none => []
  | some h => messagesFor h.task ((s.worker h.kind).allSent (s.effects h.kind es))

/-- What a handle passes on from now on without waiting, and whether this is all. -/
def remaining (s : Supervisor ρ μ) (i : ℕ) : List μ × Bool :=
  match s.handles[i]? with
  | none => ([],true)
  | some h => ((h.messages (s.worker h.kind)).1,(h.messages (s.worker h.kind)).2.1)

/-- What ends the messages of a task: nothing more if the last one is among them or is still to
come, a failure if the worker has ended before it. -/
def ending (s : Supervisor ρ μ) (kind : RequestKind) (ms : List μ) : List μ :=
  if hasLast ms || (s.worker kind).isAlive then []
  else [Mail.failure (s.worker kind).exitReason]

/-- Whether the end of the worker is noticed through a handle only when no message is left for its
task. -/
def Patient (i : ℕ) : Supervisor ρ μ → List (Event ρ μ) → Prop
  | _, [] => True
  | s, e :: es => (e = .handle i .report → ∀ h, s.handles[i]? = some h →
      (s.worker h.kind).isAlive = false → (s.worker h.kind).waiting h.task = []) ∧
    Patient i (s.apply e) es

/-! ## Ended handles -/

theorem remaining_of_ended (hi : s.handles[i]? = some h) (he : h.isEnded = true) :
    s.remaining i = ([],true) := by
  have hdrain : h.drain (s.worker h.kind) = ([],true,h,s.worker h.kind) := by
    rw [Handle.drain,Handle.drainBy,h.read_of_ended _ he]
  simp only [remaining,hi,Handle.messages,hdrain]

theorem heard_of_elsewhere {e : Event ρ μ} (he : ¬ e.Concerns i) : s.heard i e = [] := by
  cases e with
  | handle j d => exact if_neg he
  | _ => rfl

theorem heard_of_handle (hi : s.handles[i]? = some h) (d : Handle.Deed) :
    s.heard i (.handle i d) = (h.act (s.worker h.kind) d).1 := by
  rw [heard,if_pos rfl,through_of_handle hi]

theorem handle_apply_self (hi : s.handles[i]? = some h) (d : Handle.Deed) :
    (s.apply (.handle i d)).handles[i]? = some (h.act (s.worker h.kind) d).2.1 := by
  rw [apply,through_of_handle hi,handles_setWorker,handle_setHandle s hi]

theorem worker_apply_self (hi : s.handles[i]? = some h) (d : Handle.Deed) :
    (s.apply (.handle i d)).worker h.kind = (h.act (s.worker h.kind) d).2.2 := by
  rw [apply,through_of_handle hi,worker_setWorker,if_pos rfl]

theorem heard_of_ended (hi : s.handles[i]? = some h) (he : h.isEnded = true) (e : Event ρ μ) :
    s.heard i e = [] ∧ ∃ h', (s.apply e).handles[i]? = some h' ∧ h'.isEnded = true := by
  by_cases hc : e.Concerns i
  · obtain ⟨d,rfl⟩ := Event.exists_of_concerns hc
    obtain ⟨hnone,hended⟩ := Handle.act_of_ended (s.worker h.kind) d he
    exact ⟨(heard_of_handle hi d).trans hnone,_,handle_apply_self hi d,hended⟩
  · exact ⟨heard_of_elsewhere hc,h,handle_apply hi hc,he⟩

/-- Through an ended handle nothing is passed on any more. -/
theorem allHeard_of_ended (hi : s.handles[i]? = some h) (he : h.isEnded = true)
    (es : List (Event ρ μ)) : s.allHeard i es = [] ∧
      ∃ h', (s.run es).handles[i]? = some h' ∧ h'.isEnded = true := by
  induction es generalizing s h with
  | nil => exact ⟨rfl,h,hi,he⟩
  | cons e es ih =>
    obtain ⟨hnone,h',hi',he'⟩ := heard_of_ended hi he e
    obtain ⟨hrest,hafter⟩ := ih hi' he'
    exact ⟨by rw [allHeard,hnone,hrest]; rfl,hafter⟩

/-! ## Open handles -/

theorem cancel_search (hi : s.handles[i]? = some h) (hkind : h.kind = .search) :
    s.apply (.handle i .cancel) = s.setHandle i h.muted := by
  rw [apply,through_of_handle hi,← worker_setHandle s h.kind i h.muted]
  simp only [Handle.act,hkind,reduceCtorEq,false_and,if_false]
  exact setWorker_worker (s.setHandle i h.muted) .search

theorem sent_of_handle (hi : s.handles[i]? = some h) (d : Handle.Deed) :
    (s.worker h.kind).allSent (s.effect h.kind (.handle i d)) = [] := by
  rw [effect,acts_of_handle hi,if_pos rfl]
  exact h.allSent_events _ d

/-- Whether an event leaves a handle open and passes on what it reads, but no last message. -/
structure GoesOn (s : Supervisor ρ μ) (i : ℕ) (h : Handle μ) (e : Event ρ μ)
    (sent consumed : List μ) : Prop where
  isOpen : (s.apply e).Open i h
  queues : ((s.apply e).worker h.kind).queues.isSome = true
  no_last : hasLast consumed = false
  heard : s.heard i e = h.audible consumed
  waiting : (s.worker h.kind).waiting h.task ++ sent =
    consumed ++ ((s.apply e).worker h.kind).waiting h.task

/-- Whether an event closes a handle: it passes on the one message that waits, which is the last
one, and nothing more is to come; or no message waits and it passes on that the worker has ended. -/
structure Closes (s : Supervisor ρ μ) (i : ℕ) (h : Handle μ) (e : Event ρ μ) (last : μ) : Prop where
  ended : ∃ h', (s.apply e).handles[i]? = some h' ∧ h'.isEnded = true
  isLast : Mail.isLast last = true
  heard : s.heard i e = [last]
  why : (s.worker h.kind).waiting h.task = [last] ∧
      ((s.apply e).worker h.kind).Quiet h.task ∨
    (s.worker h.kind).waiting h.task = [] ∧ ((s.apply e).worker h.kind).isAlive = false ∧
      last = Mail.failure (s.worker h.kind).exitReason

namespace Open

theorem read_cases (ho : s.Open i h) (hs : s.Sound)
    (hq : (s.worker h.kind).queues.isSome = true) :
    (∃ consumed, s.GoesOn i h (.handle i .read) [] consumed) ∨
      ∃ last, s.Closes i h (.handle i .read) last := by
  have hi := ho.handle
  have hheard := heard_of_handle hi .read
  have hhandle := handle_apply_self hi .read
  have hworker := worker_apply_self hi .read
  simp only [Handle.act] at hheard hhandle hworker
  rcases h.read_cases (s.worker h.kind) with ⟨he,-⟩ | ⟨-,m,rest,hw,hm,hread⟩ |
    ⟨-,hlast,reading,hread,hpassed⟩
  · rw [ho.isEnded] at he
    cases he
  · rw [hread] at hheard hhandle hworker
    obtain ⟨hrest,hquiet⟩ := (hs.workers h.kind).quiet_of_last hw hm
    exact .inr ⟨m,⟨_,hhandle,h.isEnded_finish m⟩,hm,hheard,
      .inl ⟨by rw [hw,hrest],hworker ▸ hquiet⟩⟩
  · rw [hread] at hheard hhandle hworker
    refine .inl ⟨_,⟨hhandle,ho.isEnded,?_⟩,?_,hlast,hheard.trans hpassed,?_⟩
    · rw [hworker,registered_receive,ho.registered]
    · rw [hworker,isSome_queues_receive,hq]
    · rw [hworker,waiting_receive_self]
      cases (s.worker h.kind).waiting h.task <;> simp

theorem report_cases (ho : s.Open i h) (hq : (s.worker h.kind).queues.isSome = true)
    (hw : (s.worker h.kind).isAlive = false → (s.worker h.kind).waiting h.task = []) :
    (∃ consumed, s.GoesOn i h (.handle i .report) [] consumed) ∨
      ∃ last, s.Closes i h (.handle i .report) last := by
  have hi := ho.handle
  have hheard := heard_of_handle hi .report
  have hhandle := handle_apply_self hi .report
  have hworker := worker_apply_self hi .report
  cases ha : (s.worker h.kind).isAlive with
  | true =>
    have hdo : h.act (s.worker h.kind) .report = ([],h,s.worker h.kind) := by
      simp [Handle.act,ha]
    rw [hdo] at hheard hhandle hworker
    refine .inl ⟨[],⟨hhandle,ho.isEnded,?_⟩,?_,rfl,?_,?_⟩
    · rw [hworker,ho.registered]
    · rw [hworker,hq]
    · simpa [Handle.audible] using hheard
    · rw [hworker]
      exact List.append_nil _
  | false =>
    have hdo : h.act (s.worker h.kind) .report =
        ([Mail.failure (s.worker h.kind).exitReason],
          h.finish (Mail.failure (s.worker h.kind).exitReason),
          (s.worker h.kind).forget h.task) := by
      simp [Handle.act,ha,ho.isEnded]
    rw [hdo] at hheard hhandle hworker
    refine .inr ⟨_,⟨_,hhandle,h.isEnded_finish _⟩,Mail.isLast_failure _,hheard,
      .inr ⟨hw ha,?_,rfl⟩⟩
    rw [hworker]
    exact ha

theorem elsewhere (ho : s.Open i h) (hs : s.Sound)
    (hq : (s.worker h.kind).queues.isSome = true) {e : Event ρ μ} (he : ¬ e.Concerns i)
    (hstarts : ((s.apply e).worker h.kind).starts = (s.worker h.kind).starts) :
    s.GoesOn i h e (messagesFor h.task ((s.worker h.kind).allSent (s.effect h.kind e))) [] := by
  have hworker := s.worker_apply h.kind e
  obtain ⟨⟨hqueues,hregistered⟩,hwaiting⟩ := waiting_run_of_untouched hq ho.registered
    (hs.effect_touches_not ho.handle he) (hworker ▸ hstarts)
  rw [← hworker] at hqueues hregistered hwaiting
  exact ⟨⟨handle_apply ho.handle he,ho.isEnded,hregistered⟩,hqueues,rfl,
    by simp [heard_of_elsewhere he,Handle.audible],hwaiting.symm⟩

/-- Without a new start and without a cancellation an open handle goes on or closes. -/
theorem step_cases (ho : s.Open i h) (hs : s.Sound)
    (hq : (s.worker h.kind).queues.isSome = true) {e : Event ρ μ}
    (hstarts : ((s.apply e).worker h.kind).starts = (s.worker h.kind).starts)
    (hcancel : e ≠ .handle i .cancel)
    (hreport : e = .handle i .report → (s.worker h.kind).isAlive = false →
      (s.worker h.kind).waiting h.task = []) :
    (∃ consumed, s.GoesOn i h e
      (messagesFor h.task ((s.worker h.kind).allSent (s.effect h.kind e))) consumed) ∨
    messagesFor h.task ((s.worker h.kind).allSent (s.effect h.kind e)) = [] ∧
      ∃ last, s.Closes i h e last := by
  by_cases hc : e.Concerns i
  · obtain ⟨d,rfl⟩ := Event.exists_of_concerns hc
    rw [sent_of_handle ho.handle,messagesFor_nil]
    have hcases : (∃ consumed, s.GoesOn i h (.handle i d) [] consumed) ∨
        ∃ last, s.Closes i h (.handle i d) last := by
      cases d with
      | cancel => exact absurd rfl hcancel
      | read => exact ho.read_cases hs hq
      | report => exact ho.report_cases hq (hreport rfl)
    exact hcases.imp_right fun hcloses => ⟨rfl,hcloses⟩
  · exact .inl ⟨[],ho.elsewhere hs hq hc hstarts⟩

end Open

/-! ## Runs of an open handle -/

theorem sentFor_eq (hi : s.handles[i]? = some h) (es : List (Event ρ μ)) : s.sentFor i es =
    messagesFor h.task ((s.worker h.kind).allSent (s.effects h.kind es)) := by
  simp only [sentFor,hi]

theorem sentFor_cons (hi : s.handles[i]? = some h) (e : Event ρ μ) (es : List (Event ρ μ)) :
    s.sentFor i (e :: es) =
      messagesFor h.task ((s.worker h.kind).allSent (s.effect h.kind e)) ++
        (s.apply e).sentFor i es := by
  obtain ⟨h',hi',htask,hkind,-⟩ := exists_handle_apply hi e
  rw [sentFor_eq hi,sentFor_eq hi',htask,hkind,effects,allSent_append,messagesFor_append,
    worker_apply]

/-- Whether these messages come out at a handle in a run and after it, as far as they are audible,
with a failure behind them if the worker has ended before the last one. -/
structure ComesOut (s : Supervisor ρ μ) (i : ℕ) (h : Handle μ) (es : List (Event ρ μ))
    (ms : List μ) : Prop where
  orderly : Orderly ms
  passed : s.allHeard i es ++ ((s.run es).remaining i).1 =
    h.audible ms ++ (s.run es).ending h.kind ms
  ended : ((s.run es).remaining i).2 = (hasLast ms || !((s.run es).worker h.kind).isAlive)

theorem GoesOn.comesOut {e : Event ρ μ} {sent consumed ms : List μ} {es : List (Event ρ μ)}
    (hgoes : s.GoesOn i h e sent consumed) (hrest : (s.apply e).ComesOut i h es ms) :
    s.ComesOut i h (e :: es) (consumed ++ ms) := by
  refine ⟨orderly_append hgoes.no_last hrest.orderly,?_,?_⟩
  · have hending : ((s.apply e).run es).ending h.kind (consumed ++ ms) =
        ((s.apply e).run es).ending h.kind ms := by
      rw [ending,ending,hasLast_append,hgoes.no_last,Bool.false_or]
    rw [allHeard,hgoes.heard,List.append_assoc,Handle.audible_append,List.append_assoc]
    exact congrArg _ (hrest.passed.trans (congrArg _ hending.symm))
  · rw [hasLast_append,hgoes.no_last,Bool.false_or]
    exact hrest.ended

theorem Closes.comesOut {e : Event ρ μ} {last : μ} {es : List (Event ρ μ)} (hs : s.Sound)
    (hi : s.handles[i]? = some h) (hcloses : s.Closes i h e last)
    (hsent : messagesFor h.task ((s.worker h.kind).allSent (s.effect h.kind e)) = [])
    (hstarts : ((s.run (e :: es)).worker h.kind).starts = (s.worker h.kind).starts) :
    s.ComesOut i h (e :: es) ((s.worker h.kind).waiting h.task ++ s.sentFor i (e :: es)) := by
  obtain ⟨h',hi',he'⟩ := hcloses.ended
  obtain ⟨hsilent,_,hafter,hended⟩ := allHeard_of_ended hi' he' es
  obtain ⟨g,hg,htask,hkind,-⟩ := exists_handle_apply hi e
  have hmore : (((s.apply e).run es).worker h.kind).starts =
      ((s.apply e).worker h.kind).starts := (starts_of_run_append [e] hstarts).2
  have hbrings := (hs.apply e).effects_brings_not hg h.kind es
  rw [htask] at hbrings
  have hrest : (s.apply e).sentFor i es =
      messagesFor h.task (((s.apply e).worker h.kind).allSent ((s.apply e).effects h.kind es)) := by
    rw [sentFor_eq hg,htask,hkind]
  have hremaining : (s.run (e :: es)).remaining i = ([],true) := remaining_of_ended hafter hended
  rw [sentFor_cons hi,hsent,List.nil_append,hrest]
  rcases hcloses.why with ⟨hw,hquiet⟩ | ⟨hw,hdead,hlast⟩
  · -- the last message was read, and nothing is sent behind it
    rw [hw,hquiet.run_sends_nothing hbrings,List.append_nil]
    refine ⟨List.pairwise_singleton _ _,?_,?_⟩
    · rw [allHeard,hcloses.heard,hsilent,hremaining,h.audible_last hcloses.isLast,ending]
      simp [hcloses.isLast]
    · rw [hremaining]
      simp [hcloses.isLast]
  · -- the worker has ended, and stays so without a new start
    rw [worker_run] at hmore
    obtain ⟨hstill,hnone⟩ := run_of_ended hdead hmore hbrings
    rw [← worker_run] at hstill
    have hdead' : ((s.run (e :: es)).worker h.kind).isAlive = false := hstill
    have hname : ((s.run (e :: es)).worker h.kind).exitReason = (s.worker h.kind).exitReason := by
      rw [worker_run,exitReason_run]
    rw [hw,hnone,List.append_nil]
    refine ⟨orderly_nil,?_,?_⟩
    · rw [allHeard,hcloses.heard,hsilent,hremaining,ending,hdead',hname,hlast]
      simp [Handle.audible]
    · rw [hremaining,hdead']
      rfl

/-- Without a new start, what waits for the task of an open handle and what is sent for it come out
at the handle. -/
theorem Open.comesOut (ho : s.Open i h) (hs : s.Sound)
    (hq : (s.worker h.kind).queues.isSome = true) {es : List (Event ρ μ)}
    (hstarts : ((s.run es).worker h.kind).starts = (s.worker h.kind).starts)
    (hcancel : Event.handle i .cancel ∈ es → h.kind = .search ∧ h.cancelled = true)
    (hpatient : s.Patient i es) :
    s.ComesOut i h es ((s.worker h.kind).waiting h.task ++ s.sentFor i es) := by
  induction es generalizing s with
  | nil =>
    have horderly : Orderly ((s.worker h.kind).waiting h.task) :=
      ((hs.workers h.kind).orderly h.task).within (List.prefix_append _ _).isInfix
    obtain ⟨hpassed,hended⟩ := Handle.messages_spec (s.worker h.kind) ho.isEnded
    have hremaining : (s.run []).remaining i =
        ((h.messages (s.worker h.kind)).1,(h.messages (s.worker h.kind)).2.1) := by
      simp only [remaining,run,List.foldl_nil,ho.handle]
    have hnone : s.sentFor i [] = [] := sentFor_eq ho.handle []
    rw [hnone,List.append_nil]
    refine ⟨horderly,?_,?_⟩
    · rw [hremaining,hpassed,untilLast_of_orderly horderly]
      rfl
    · rw [hremaining]
      exact hended
  | cons e es ih =>
    obtain ⟨hone,hmore⟩ := starts_of_run_append [e] hstarts
    by_cases he : e = .handle i .cancel
    · -- a cancelled search is cancelled again, which changes nothing
      subst he
      obtain ⟨hkind,hcancelled⟩ := hcancel List.mem_cons_self
      have hmuted : h.muted = h := by
        unfold Handle.muted
        rw [← hcancelled]
      have hsame : s.apply (.handle i .cancel) = s := by
        rw [cancel_search ho.handle hkind,hmuted,setHandle_self s ho.handle]
      have hrest := ih ho hs hq (hsame ▸ hmore) (fun hc => hcancel (List.mem_cons_of_mem _ hc))
        (hsame ▸ hpatient.2)
      have hrun : s.run (.handle i .cancel :: es) = s.run es := congrArg (run · es) hsame
      have hheard : s.allHeard i (.handle i .cancel :: es) = s.allHeard i es := by
        rw [allHeard,heard_of_handle ho.handle,hsame]
        rfl
      rw [sentFor_cons ho.handle,sent_of_handle ho.handle,hsame]
      exact ⟨hrest.orderly,by rw [hrun,hheard]; exact hrest.passed,by rw [hrun]; exact hrest.ended⟩
    · rcases ho.step_cases hs hq hone he (fun hr => hpatient.1 hr h ho.handle) with
        ⟨consumed,hgoes⟩ | ⟨hsent,last,hcloses⟩
      · have hrest := ih hgoes.isOpen (hs.apply e) hgoes.queues hmore
          (fun hc => hcancel (List.mem_cons_of_mem e hc)) hpatient.2
        rw [sentFor_cons ho.handle,← List.append_assoc,hgoes.waiting,List.append_assoc]
        exact hgoes.comesOut hrest
      · exact hcloses.comesOut hs ho.handle hsent hstarts

/-- As long as no last message comes out at an open handle, it stays open, and what is sent for its
task is what was read, none of it a last message, and what waits. -/
theorem Open.stays (ho : s.Open i h) (hs : s.Sound)
    (hq : (s.worker h.kind).queues.isSome = true) {es : List (Event ρ μ)}
    (hstarts : ((s.run es).worker h.kind).starts = (s.worker h.kind).starts)
    (hcancel : ∀ e ∈ es, e ≠ .handle i .cancel) (hpatient : s.Patient i es)
    (hheard : hasLast (s.allHeard i es) = false) :
    (s.run es).Open i h ∧ ((s.run es).worker h.kind).queues.isSome = true ∧
      ∃ consumed, hasLast consumed = false ∧ s.allHeard i es = h.audible consumed ∧
        (s.worker h.kind).waiting h.task ++ s.sentFor i es =
          consumed ++ ((s.run es).worker h.kind).waiting h.task := by
  induction es generalizing s with
  | nil =>
    refine ⟨ho,hq,[],rfl,by simp [allHeard,Handle.audible],?_⟩
    rw [sentFor_eq ho.handle]
    exact List.append_nil _
  | cons e es ih =>
    obtain ⟨hone,hmore⟩ := starts_of_run_append [e] hstarts
    rw [allHeard,hasLast_append,Bool.or_eq_false_iff] at hheard
    rcases ho.step_cases hs hq hone (hcancel e List.mem_cons_self)
      (fun hr => hpatient.1 hr h ho.handle) with ⟨consumed,hgoes⟩ | ⟨-,last,hcloses⟩
    · obtain ⟨hopen,hqueues,more,hnone,hpassed,hwaiting⟩ := ih hgoes.isOpen (hs.apply e)
        hgoes.queues hmore (fun e' he' => hcancel e' (List.mem_cons_of_mem e he')) hpatient.2
        hheard.2
      refine ⟨hopen,hqueues,consumed ++ more,by simp [hgoes.no_last,hnone],?_,?_⟩
      · rw [allHeard,hgoes.heard,hpassed,Handle.audible_append]
      · rw [sentFor_cons ho.handle,← List.append_assoc,hgoes.waiting,List.append_assoc,hwaiting,
          List.append_assoc]
        rfl
    · rw [hcloses.heard] at hheard
      simp [hcloses.isLast] at hheard

/-! ## From the submission on -/

theorem sentFor_append (hi : s.handles[i]? = some h) (es more : List (Event ρ μ)) :
    s.sentFor i (es ++ more) = s.sentFor i es ++ (s.run es).sentFor i more := by
  induction es generalizing s h with
  | nil =>
    rw [sentFor_eq hi []]
    rfl
  | cons e es ih =>
    obtain ⟨h',hi',-,-,-⟩ := exists_handle_apply hi e
    rw [List.cons_append,sentFor_cons hi,ih hi',sentFor_cons hi,List.append_assoc]
    rfl

theorem patient_append {es more : List (Event ρ μ)} (hp : s.Patient i (es ++ more)) :
    s.Patient i es ∧ (s.run es).Patient i more := by
  induction es generalizing s with
  | nil => exact ⟨trivial,hp⟩
  | cons e es ih =>
    obtain ⟨hes,hmore⟩ := ih hp.2
    exact ⟨⟨hp.1,hes⟩,hmore⟩

theorem Sound.open_submit (hs : s.Sound) (kind : RequestKind) (request : ρ) :
    (s.submit kind request).Open s.handles.length (.new s.nextTask kind) ∧
      ((s.submit kind request).worker kind).queues.isSome = true ∧
      ((s.submit kind request).worker kind).waiting s.nextTask = [] := by
  have hstarted := (hs.workers kind).ensureStarted
  obtain ⟨-,-,houtlook⟩ := hstarted.fresh s.nextTask (Nat.le_refl _)
  have hworker : (s.submit kind request).worker kind =
      (s.worker kind).send s.nextTask request := by rw [worker_submit,if_pos rfl]
  refine ⟨⟨?_,rfl,?_⟩,?_,?_⟩
  · rw [handles_submit,List.getElem?_concat_length]
  · have hregistered : ((s.worker kind).send s.nextTask request).registered s.nextTask = true := by
      simp
    exact hworker ▸ hregistered
  · rw [hworker,isSome_queues_send]
    exact hstarted.queues_of_alive (isAlive_ensureStarted _)
  · have hwaiting := (List.append_eq_nil_iff.mp houtlook).1
    rw [hworker,waiting_send_self]
    exact (List.append_eq_nil_iff.mp hwaiting).2

/-- A handle through which a last message was passed on has ended. -/
theorem ended_of_heard {e : Event ρ μ} (hlast : hasLast (s.heard i e) = true) :
    ∃ h', (s.apply e).handles[i]? = some h' ∧ h'.isEnded = true := by
  by_cases hc : e.Concerns i
  · obtain ⟨d,rfl⟩ := Event.exists_of_concerns hc
    rcases hi : s.handles[i]? with _ | h
    · rw [heard,if_pos rfl,through_of_none hi] at hlast
      cases hlast
    · rw [heard_of_handle hi] at hlast
      exact ⟨_,handle_apply_self hi d,Handle.ended_of_act _ d hlast⟩
  · rw [heard_of_elsewhere hc] at hlast
    cases hlast

/-- After a last message nothing is passed on through a handle. -/
theorem silent_after_last {es : List (Event ρ μ)} (hlast : hasLast (s.allHeard i es) = true)
    (later : List (Event ρ μ)) : (s.run es).allHeard i later = [] := by
  induction es generalizing s with
  | nil => cases hlast
  | cons e es ih =>
    rw [allHeard,hasLast_append,Bool.or_eq_true] at hlast
    rcases hlast with hlast | hlast
    · obtain ⟨h',hi',he'⟩ := ended_of_heard hlast
      obtain ⟨-,h'',hi'',he''⟩ := allHeard_of_ended hi' he' es
      exact (allHeard_of_ended hi'' he'' later).1
    · exact ih hlast

/-- A search that is cancelled before its last message is read goes on unheard: what comes out from
then on is the last one of the messages that are sent for it in the whole run. -/
theorem Open.comesOut_cancelled (ho : s.Open i h) (hs : s.Sound)
    (hq : (s.worker h.kind).queues.isSome = true) (hkind : h.kind = .search)
    {es later : List (Event ρ μ)}
    (hstarts : ((s.run (es ++ .handle i .cancel :: later)).worker h.kind).starts =
      (s.worker h.kind).starts)
    (hcancel : ∀ e ∈ es, e ≠ .handle i .cancel)
    (hpatient : s.Patient i (es ++ .handle i .cancel :: later))
    (hheard : hasLast (s.allHeard i es) = false) {ms : List μ}
    (hms : (s.worker h.kind).waiting h.task ++
      s.sentFor i (es ++ .handle i .cancel :: later) = ms) :
    Orderly ms ∧ (s.run (es ++ [.handle i .cancel])).allHeard i later ++
        ((s.run (es ++ .handle i .cancel :: later)).remaining i).1 =
      ms.filter Mail.isLast ++ (s.run (es ++ .handle i .cancel :: later)).ending h.kind ms := by
  obtain ⟨hbefore,hafter⟩ := starts_of_run_append es hstarts
  obtain ⟨hpes,hplater⟩ := patient_append hpatient
  obtain ⟨hopen,hqueues,consumed,hnone,-,hconsumed⟩ :=
    ho.stays hs hq hbefore hcancel hpes hheard
  have hi := hopen.handle
  have hsame := cancel_search hi hkind
  have hworker : ((s.run es).apply (.handle i .cancel)).worker h.kind =
      (s.run es).worker h.kind := by
    rw [hsame,worker_setHandle]
  have hmuted : ((s.run es).apply (.handle i .cancel)).Open i h.muted := by
    refine ⟨by rw [hsame,handle_setHandle _ hi],?_,?_⟩
    · have hended := hopen.isEnded
      rw [Handle.isEnded,hkind] at hended
      simpa [Handle.isEnded,Handle.muted,hkind] using hended
    · change (((s.run es).apply (.handle i .cancel)).worker h.kind).registered h.task = true
      rw [hworker]
      exact hopen.registered
  have hrest := hmuted.comesOut ((hs.run es).apply _) (hworker ▸ hqueues)
    (starts_of_run_append [.handle i .cancel] hafter).2 (fun _ => ⟨hkind,rfl⟩) hplater.2
  have hsent : ms = consumed ++ (((s.run es).worker h.kind).waiting h.task ++
      ((s.run es).apply (.handle i .cancel)).sentFor i later) := by
    rw [← hms,sentFor_append ho.handle,← List.append_assoc,hconsumed,sentFor_cons hi,
      sent_of_handle hi,List.append_assoc]
    rfl
  have hworker' : ((s.run es).apply (.handle i .cancel)).worker h.muted.kind =
    (s.run es).worker h.kind := hworker
  rw [hworker'] at hrest
  have hpassed := hrest.passed
  rw [h.audible_muted] at hpassed
  refine ⟨hsent ▸ orderly_append hnone hrest.orderly,?_⟩
  rw [run_append,run_append,hsent,ending,hasLast_append,hnone,Bool.false_or,List.filter_append,
    filter_isLast_of_none hnone,List.nil_append]
  exact hpassed

end Supervisor

/-- As long as a worker is not started anew, the messages for a pending task that were read, those
in its buffer and those on the queue are the messages that were sent for it, in the order in which
they were sent, whichever tasks are registered and forgotten besides and in whatever order messages
arrive and are read. So what comes out at the handle of a submitted request is what the worker sends
for its task, with nothing behind the last message, whatever happens at other handles; a failure
takes the place of the last message if the worker ends before it. What comes out of a search after
it is cancelled is its last message only. -/
theorem delivers_in_order :
    (∀ (w : Worker ρ μ) (t : TaskId) (b : List μ) (es : List (Event ρ μ)),
      w.buffer? t = some b → w.queues.isSome = true → (∀ e ∈ es, ¬ e.Registers t) →
      (w.run es).starts = w.starts → ∃ b', (w.run es).buffer? t = some b' ∧
        messagesFor t (w.allDelivered es) ++ b' ++ messagesFor t (w.run es).responses =
          b ++ messagesFor t w.responses ++ messagesFor t (w.allSent es)) ∧
    (∀ (before es : List (Supervisor.Event ρ μ)) (kind : RequestKind) (request : ρ)
      (s : Supervisor ρ μ) (i : ℕ),
      s = (Supervisor.new.run before).submit kind request →
      i = (Supervisor.new.run before).handles.length →
      ((s.run es).worker kind).starts = (s.worker kind).starts → s.Patient i es →
      ((∀ e ∈ es, e ≠ .handle i .cancel) → Orderly (s.sentFor i es) ∧
        s.allHeard i es ++ ((s.run es).remaining i).1 =
          s.sentFor i es ++ (s.run es).ending kind (s.sentFor i es) ∧
        ((s.run es).remaining i).2 =
          (hasLast (s.sentFor i es) || !((s.run es).worker kind).isAlive)) ∧
      ∀ early late, es = early ++ .handle i .cancel :: late → kind = .search →
        (∀ e ∈ early, e ≠ .handle i .cancel) → hasLast (s.allHeard i early) = false →
        Orderly (s.sentFor i es) ∧
          (s.run (early ++ [.handle i .cancel])).allHeard i late ++ ((s.run es).remaining i).1 =
            (s.sentFor i es).filter Mail.isLast ++ (s.run es).ending kind (s.sentFor i es)) ∧
    ∀ (s : Supervisor ρ μ) (i : ℕ) (es later : List (Supervisor.Event ρ μ)),
      hasLast (s.allHeard i es) = true → (s.run es).allHeard i later = [] := by
  refine ⟨fun w t b es hb hq hes hstarts => ?_,?_,
    fun s i es later hlast => Supervisor.silent_after_last hlast later⟩
  · have ht : w.registered t = true := by rw [registered,hb]; rfl
    obtain ⟨⟨-,hafter⟩,hsame⟩ := waiting_run hq ht hes hstarts
    obtain ⟨b',hb'⟩ := Option.isSome_iff_exists.mp hafter
    rw [waiting,hb',waiting,hb] at hsame
    exact ⟨b',hb',(List.append_assoc _ _ _).trans hsame⟩
  · intro before es kind request s i hs hi hstarts hpatient
    have hsound : (Supervisor.new.run before : Supervisor ρ μ).Sound :=
      Supervisor.sound_new.run before
    obtain ⟨hopen,hqueues,hwaiting⟩ := hsound.open_submit kind request
    have hnow := hsound.submit kind request
    rw [← hs] at hopen hqueues hwaiting hnow
    rw [← hi] at hopen
    refine ⟨fun hcancel => ?_,fun early late hes hkind hcancel hheard => ?_⟩
    · have hout := hopen.comesOut hnow hqueues hstarts
        (fun hc => absurd rfl (hcancel _ hc)) hpatient
      have hsent : (s.worker kind).waiting (Supervisor.new.run before : Supervisor ρ μ).nextTask ++
          s.sentFor i es = s.sentFor i es := by rw [hwaiting,List.nil_append]
      obtain ⟨horderly,hpassed,hended⟩ := hsent ▸ hout
      exact ⟨horderly,hpassed,hended⟩
    · subst hes
      refine hopen.comesOut_cancelled hnow hqueues hkind hstarts hcancel hpatient hheard ?_
      exact (congrArg (· ++ _) hwaiting).trans (List.nil_append _)

/-! ## A worker with two tasks, and a search -/

/-- A worker for which two tasks are pending. -/
def routing : Worker Request Message := ((new "routing".toList).start.register 1).register 2

/-- Messages for both tasks and for one that is unknown, and readings in another order. -/
def routed : List (Event Request Message) :=
  [.arrive 1 (.tested 1 2),.arrive 2 (.found []),.arrive 1 (.verified [] []),
    .arrive 9 (.tested 1 2),.receive 2,.receive 1]

/-- A worker that answers every request by one message on its progress and no results. -/
def inTwo : Answering Request Message where
  answer _ := [.searching ⟨0,1,0,[]⟩,.found []]
  conclusive _ := (conclusive_singleton rfl).cons rfl

/-- A search without a history. -/
def plainSearch : Request := .search ⟨[],50,1,.fast,[],0,2,0,0,none⟩

/-- A request for backtests without formulas. -/
def plainVerify : Request := .verify ⟨[],[],none,none,none,none,none⟩

/-- A supervisor with one search. -/
def searching : Supervisor Request Message := Supervisor.new.submit .search plainSearch

/-- The search is read while another one waits and a task for backtests is cancelled. -/
def searched : List (Supervisor.Event Request Message) :=
  [.submit .search plainSearch,.submit .verify plainVerify,.take .search inTwo,.emit .search,
    .handle 1 .read,.handle 2 .cancel,.handle 0 .read,.emit .search]

/-- The search is cancelled when its first message waits. -/
def muted : List (Supervisor.Event Request Message) :=
  [.take .search inTwo,.emit .search,.handle 0 .cancel,.handle 0 .read,.emit .search,
    .handle 0 .read]

theorem delivers_in_order_search :
    (∃ b', (routing.run routed).buffer? 1 = some b' ∧
      messagesFor 1 (routing.allDelivered routed) ++ b' ++
        messagesFor 1 (routing.run routed).responses = [.tested 1 2,.verified [] []]) ∧
    searching.allHeard 0 searched ++ ((searching.run searched).remaining 0).1 =
      [.searching ⟨0,1,0,[]⟩,.found []] ∧
    (searching.run (muted.take 3)).allHeard 0 (muted.drop 3) ++
      ((searching.run muted).remaining 0).1 = [.found []] := by
  obtain ⟨hrouted,hsearch,-⟩ := delivers_in_order (ρ := Request) (μ := Message)
  refine ⟨hrouted routing 1 [] routed rfl rfl ?_ rfl,?_,?_⟩
  · simp [routed,Event.Registers]
  · have hsearched := hsearch [] searched .search plainSearch searching 0 rfl rfl rfl
      (by simp [searched,Supervisor.Patient])
    exact (hsearched.1 (by simp [searched])).2.1
  · have hmuted := hsearch [] muted .search plainSearch searching 0 rfl rfl rfl
      (by simp [muted,Supervisor.Patient])
    exact (hmuted.2 (muted.take 2) (muted.drop 3) rfl rfl (by simp [muted]) rfl).2

end DrawFormula.Worker
