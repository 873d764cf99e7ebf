import DrawFormula.Proofs.Worker.Delivery

/-! # What a cancellation does to other tasks

The cancellation of a search, or of a task that is done, only marks its handle: from then on all
other handles and both workers go on as if there had been none. The cancellation of any other task
for backtests starts the worker anew, also when the task was cancelled before. It reaches every
other task for backtests whose last message does not wait yet: the request is lost, and a failure
takes the place of the answer.
-/
namespace DrawFormula.Worker
open Mail
variable {ρ μ : Type}

namespace Handle

/-- Whether a cancellation does no more than mark the handle. -/
def Harmless (h : Handle μ) : Prop := h.kind = .search ∨ h.done = true

variable {h : Handle μ}

theorem Harmless.isEnded_muted (hh : h.Harmless) : h.muted.isEnded = h.isEnded := by
  unfold isEnded muted
  rcases hh with hk | hd
  · simp [hk]
  · simp [hd]

theorem Harmless.not_restarting (hh : h.Harmless) : ¬ (h.kind = .verify ∧ h.done = false) := by
  rintro ⟨hkind,hdone⟩
  rcases hh with hk | hd
  · rw [hkind] at hk
    cases hk
  · rw [hdone] at hd
    cases hd

variable [Mail μ]

theorem Harmless.act (hh : h.Harmless) (w : Worker ρ μ) (d : Deed) :
    (h.act w d).2.1.Harmless := by
  cases d with
  | cancel => exact hh
  | read =>
    simp only [Handle.act]
    rcases h.read_cases w with ⟨-,hread⟩ | ⟨-,_,_,-,-,hread⟩ | ⟨-,-,_,hread,-⟩ <;> rw [hread]
    · exact hh
    · exact .inr rfl
    · exact hh
  | report =>
    simp only [Handle.act]
    split
    · exact hh
    · exact .inr rfl

/-- For the worker a deed through a marked handle is the same, although less may be passed on. -/
theorem Harmless.act_muted (hh : h.Harmless) (w : Worker ρ μ) (d : Deed) :
    (h.muted.act w d).2.1 = (h.act w d).2.1.muted ∧ (h.muted.act w d).2.2 = (h.act w d).2.2 := by
  have htask : h.muted.task = h.task := rfl
  cases d with
  | cancel =>
    have hnot : ¬ (h.muted.kind = .verify ∧ h.muted.done = false) := hh.not_restarting
    refine ⟨rfl,?_⟩
    simp only [Handle.act,if_neg hh.not_restarting,if_neg hnot]
  | read =>
    have hread : (h.muted.read w).2 = ((h.read w).2.1.muted,(h.read w).2.2) := by
      unfold Handle.read
      rw [hh.isEnded_muted,htask]
      split
      · rfl
      · split
        · rfl
        · split
          · rfl
          · have hmuted : h.muted.cancelled = true := rfl
            rw [if_pos hmuted]
            split <;> rfl
    have hhandle := congrArg Prod.fst hread
    have hworker := congrArg Prod.snd hread
    exact ⟨hhandle,hworker⟩
  | report =>
    simp only [Handle.act,hh.isEnded_muted,htask]
    split <;> exact ⟨rfl,rfl⟩

end Handle

namespace Supervisor

/-! ## Marking a handle -/

section Marking
variable (s : Supervisor ρ μ) (i : ℕ) (g : Handle μ)

theorem setHandle_onWorker (k : RequestKind) (f : Worker ρ μ → Worker ρ μ) :
    (s.setHandle i g).onWorker k f = (s.onWorker k f).setHandle i g := by cases k <;> rfl

theorem setHandle_submit (hi : i < s.handles.length) (k : RequestKind) (request : ρ) :
    (s.setHandle i g).submit k request = (s.submit k request).setHandle i g := by
  have hset : (s.handles ++ [Handle.new s.nextTask k]).set i g =
      s.handles.set i g ++ [Handle.new s.nextTask k] := List.set_append_left i g hi
  cases k <;> simp only [submit,setHandle,setWorker,worker,hset]

theorem setHandle_setHandle_self (g' : Handle μ) :
    (s.setHandle i g).setHandle i g' = s.setHandle i g' := by
  simp only [setHandle,List.set_set]

theorem setHandle_setHandle_of_ne {j : ℕ} (hij : i ≠ j) (g' : Handle μ) :
    (s.setHandle i g).setHandle j g' = (s.setHandle j g').setHandle i g := by
  simp only [setHandle,List.set_comm g g' hij]

theorem setHandle_setWorker (k : RequestKind) (w : Worker ρ μ) :
    (s.setHandle i g).setWorker k w = (s.setWorker k w).setHandle i g := by cases k <;> rfl

theorem handles_setHandle_of_ne {j : ℕ} (hij : i ≠ j) :
    (s.setHandle i g).handles[j]? = s.handles[j]? := List.getElem?_set_ne hij

end Marking

/-- Whether two supervisors differ at most in that a handle, whose cancellation is harmless, is
marked as cancelled. -/
structure Marked (s v : Supervisor ρ μ) (i : ℕ) (h : Handle μ) : Prop where
  handle : s.handles[i]? = some h
  harmless : h.Harmless
  eq : v = s.setHandle i h.muted

namespace Marked
variable {s v : Supervisor ρ μ} {i : ℕ} {h : Handle μ}

theorem worker_eq (hm : s.Marked v i h) (kind : RequestKind) : v.worker kind = s.worker kind := by
  rw [hm.eq,worker_setHandle]

theorem handles_eq (hm : s.Marked v i h) {j : ℕ} (hj : j ≠ i) :
    v.handles[j]? = s.handles[j]? := by
  rw [hm.eq,handles_setHandle_of_ne _ _ _ (Ne.symm hj)]

theorem handle_muted (hm : s.Marked v i h) : v.handles[i]? = some h.muted := by
  rw [hm.eq,handle_setHandle s hm.handle]

variable [Mail μ]

theorem deed_self (hm : s.Marked v i h) (d : Handle.Deed) :
    (s.apply (.handle i d)).Marked (v.apply (.handle i d)) i (h.act (s.worker h.kind) d).2.1 := by
  obtain ⟨hhandle,hworker⟩ := hm.harmless.act_muted (s.worker h.kind) d
  have hk : v.worker h.muted.kind = s.worker h.kind := hm.worker_eq h.kind
  refine ⟨handle_apply_self hm.handle d,hm.harmless.act _ d,?_⟩
  rw [apply,apply,through_of_handle hm.handle,through_of_handle hm.handle_muted,hk,hhandle,hworker,
    hm.eq,setHandle_setHandle_self,← setHandle_setWorker,setHandle_setHandle_self]
  rfl

theorem deed_of_ne (hm : s.Marked v i h) {j : ℕ} (hj : j ≠ i) (d : Handle.Deed) :
    (s.apply (.handle j d)).Marked (v.apply (.handle j d)) i h := by
  rcases hg : s.handles[j]? with _ | g
  · rw [apply,apply,through_of_none hg,through_of_none ((hm.handles_eq hj).trans hg)]
    exact hm
  · rw [apply,apply,through_of_handle hg,through_of_handle ((hm.handles_eq hj).trans hg),
      hm.worker_eq]
    refine ⟨?_,hm.harmless,?_⟩
    · rw [handles_setWorker,handles_setHandle_of_ne _ _ _ hj,hm.handle]
    · rw [hm.eq,setHandle_setHandle_of_ne s i h.muted (Ne.symm hj),setHandle_setWorker]

theorem apply (hm : s.Marked v i h) (e : Event ρ μ) :
    ∃ h', (s.apply e).Marked (v.apply e) i h' := by
  have hlt : i < s.handles.length := (List.getElem?_eq_some_iff.mp hm.handle).1
  rcases event_cases e with ⟨k,request,rfl⟩ | ⟨k,f,happly⟩ | ⟨j,d,rfl⟩
  · refine ⟨h,?_,hm.harmless,?_⟩
    · exact (congrArg (·[i]?) (s.handles_submit k request)).trans
        ((List.getElem?_append_left hlt).trans hm.handle)
    · rw [hm.eq]
      exact s.setHandle_submit i h.muted hlt k request
  · rw [happly,happly]
    refine ⟨h,?_,hm.harmless,?_⟩
    · rw [onWorker,handles_setWorker,hm.handle]
    · rw [hm.eq,setHandle_onWorker]
  · by_cases hj : j = i
    · subst hj
      exact ⟨_,hm.deed_self d⟩
    · exact ⟨h,hm.deed_of_ne hj d⟩

theorem heard_eq (hm : s.Marked v i h) {j : ℕ} (hj : j ≠ i) (e : Event ρ μ) :
    v.heard j e = s.heard j e := by
  cases e with
  | handle k d =>
    by_cases hk : k = j
    · subst hk
      rcases hg : s.handles[k]? with _ | g
      · rw [heard,heard,through_of_none hg,through_of_none ((hm.handles_eq hj).trans hg)]
      · rw [heard_of_handle hg,heard_of_handle ((hm.handles_eq hj).trans hg),hm.worker_eq]
    · have helsewhere : ¬ Event.Concerns j (Event.handle k d : Event ρ μ) := hk
      rw [heard_of_elsewhere helsewhere,heard_of_elsewhere helsewhere]
  | _ => rfl

/-- All other handles and both workers go on as if the handle were not marked. -/
theorem run (hm : s.Marked v i h) (later : List (Event ρ μ)) :
    (∃ h', (s.run later).Marked (v.run later) i h') ∧
      ∀ j, j ≠ i → v.allHeard j later = s.allHeard j later := by
  induction later generalizing s v h with
  | nil => exact ⟨⟨h,hm⟩,fun _ _ => rfl⟩
  | cons e later ih =>
    -- the handle itself may change, but alike in both runs up to its mark
    obtain ⟨h',hm'⟩ := hm.apply e
    obtain ⟨hafter,hrest⟩ := ih hm'
    refine ⟨hafter,fun j hj => ?_⟩
    rw [allHeard,allHeard,hm.heard_eq hj,hrest j hj]

end Marked

/-! ## Cancelling -/

section Cancelling
variable [Mail μ] {s : Supervisor ρ μ} {i j : ℕ} {h g : Handle μ}

theorem marked_cancel (hi : s.handles[i]? = some h) (hh : h.Harmless) :
    s.Marked (s.cancel i) i h := by
  refine ⟨hi,hh,?_⟩
  have hcancel : s.cancel i = (s.through i .cancel).2 := by rw [through_cancel]
  rw [hcancel,through_of_handle hi]
  simp only [Handle.act,if_neg hh.not_restarting]
  rw [← worker_setHandle s h.kind i h.muted,setWorker_worker]

theorem cancel_restarting (hi : s.handles[i]? = some h) (hkind : h.kind = .verify)
    (hdone : h.done = false) : s.cancel i =
      (s.setHandle i h.muted).setWorker .verify (s.verify.restart (some h.task)) := by
  have hcancel : s.cancel i = (s.through i .cancel).2 := by rw [through_cancel]
  rw [hcancel,through_of_handle hi]
  simp only [Handle.act,hkind,hdone,and_self,if_true]
  rfl

theorem remaining_eq (hj : s.handles[j]? = some g) : s.remaining j =
    ((g.messages (s.worker g.kind)).1,(g.messages (s.worker g.kind)).2.1) := by
  simp only [remaining,hj]

/-- A new start of the worker that drops another task leaves what comes out at an open handle as it
was if the last message waits, and puts a failure behind what waits if it does not. -/
theorem Open.remaining_restart (ho : s.Open j g) (hs : s.Sound) {v : Supervisor ρ μ}
    (hhandle : v.handles[j]? = some g) {dropped : Option TaskId} (hd : some g.task ≠ dropped)
    (hworker : v.worker g.kind = (s.worker g.kind).restart dropped) :
    (v.worker g.kind).waiting g.task = (s.worker g.kind).waiting g.task ++
        (if hasLast ((s.worker g.kind).waiting g.task) then []
          else [Mail.failure (s.worker g.kind).restartReason]) ∧
      v.remaining j = if hasLast ((s.worker g.kind).waiting g.task) then s.remaining j
        else (g.audible ((s.worker g.kind).waiting g.task) ++
          [Mail.failure (s.worker g.kind).restartReason],true) := by
  have horderly : Orderly ((s.worker g.kind).waiting g.task) :=
    ((hs.workers g.kind).orderly g.task).within (List.prefix_append _ _).isInfix
  have hwaiting : (v.worker g.kind).waiting g.task = (s.worker g.kind).waiting g.task ++
      (if hasLast ((s.worker g.kind).waiting g.task) then []
        else [Mail.failure (s.worker g.kind).restartReason]) := by
    rw [hworker,waiting_restart ho.registered hd,settleBuffer_eq]
  have hconclusive : Conclusive ((v.worker g.kind).waiting g.task) := by
    rw [hworker,waiting_restart ho.registered hd]
    exact conclusive_settleBuffer _ horderly
  obtain ⟨hmessages,hended⟩ := Handle.messages_of_conclusive _ ho.isEnded hconclusive
  refine ⟨hwaiting,?_⟩
  rw [remaining_eq hhandle,remaining_eq ho.handle,hmessages,hended,hwaiting]
  cases hlast : hasLast ((s.worker g.kind).waiting g.task) with
  | true =>
    obtain ⟨hbefore,hbefore'⟩ := Handle.messages_of_conclusive _ ho.isEnded
      (conclusive_iff.mpr ⟨horderly,hlast⟩)
    rw [hbefore,hbefore']
    simp
  | false =>
    simp only [Bool.false_eq_true,if_false]
    rw [Handle.audible_append,g.audible_last (Mail.isLast_failure _)]

end Cancelling

end Supervisor

/-- What the cancellation of a task does to the others. For a search, or a task that is done, it
does nothing: in every run from then on both workers and all other handles are the same, and the
same is passed on. For any other task, cancelled before or not, it starts the worker for backtests
anew. This does not reach the other tasks whose last message waits; each of the others that is open
loses its request or what is still to come for it, and gets a failure. -/
theorem cancel_reaches [Mail μ] (es : List (Supervisor.Event ρ μ)) {s : Supervisor ρ μ}
    (hs : s = Supervisor.new.run es) {i : ℕ} {h : Handle μ} (hi : s.handles[i]? = some h) :
    (h.kind = .search ∨ h.done = true → ∀ later : List (Supervisor.Event ρ μ),
      (∀ kind, ((s.cancel i).run later).worker kind = (s.run later).worker kind) ∧
      ∀ j, j ≠ i → ((s.cancel i).run later).handles[j]? = (s.run later).handles[j]? ∧
        (s.cancel i).allHeard j later = s.allHeard j later) ∧
    (h.kind = .verify → h.done = false →
      (s.cancel i).search = s.search ∧ (s.cancel i).verify.starts = s.verify.starts + 1 ∧
      (s.cancel i).verify.queues = some ⟨[],[]⟩ ∧
      (∀ j, j ≠ i → (s.cancel i).handles[j]? = s.handles[j]?) ∧
      ∀ j g, j ≠ i → s.Open j g → g.kind = .verify →
        if hasLast (s.verify.waiting g.task) then
          (s.cancel i).verify.waiting g.task = s.verify.waiting g.task ∧
          (s.cancel i).remaining j = s.remaining j ∧
          g.task ∉ s.verify.requested ∧ s.verify.atHand g.task = []
        else
          (s.cancel i).verify.waiting g.task =
            s.verify.waiting g.task ++ [Mail.failure s.verify.restartReason] ∧
          (s.cancel i).remaining j = (g.audible (s.verify.waiting g.task) ++
            [Mail.failure s.verify.restartReason],true)) := by
  have hsound : s.Sound := hs ▸ Supervisor.sound_new.run es
  refine ⟨fun hh later => ?_,fun hkind hdone => ?_⟩
  · obtain ⟨⟨h',hmarked⟩,hheard⟩ := (Supervisor.marked_cancel hi hh).run later
    exact ⟨hmarked.worker_eq,fun j hj => ⟨hmarked.handles_eq hj,hheard j hj⟩⟩
  · have hcancel := Supervisor.cancel_restarting hi hkind hdone
    have hhandles (j : ℕ) (hj : j ≠ i) : (s.cancel i).handles[j]? = s.handles[j]? := by
      rw [hcancel,Supervisor.handles_setWorker,
        Supervisor.handles_setHandle_of_ne _ _ _ (Ne.symm hj)]
    have hverify : (s.cancel i).verify = s.verify.restart (some h.task) := by rw [hcancel]; rfl
    refine ⟨by rw [hcancel]; rfl,by rw [hverify]; rfl,by rw [hverify]; rfl,hhandles,
      fun j g hj ho hg => ?_⟩
    -- the dropped task is not the one of another handle
    have hne : some g.task ≠ some h.task := by
      intro htask
      have hsame := Option.some.inj htask
      rw [hsound.task_eq j g ho.handle,hsound.task_eq i h hi] at hsame
      exact hj (Nat.succ_inj.mp hsame)
    have hworker : (s.cancel i).worker g.kind = (s.worker g.kind).restart (some h.task) := by
      rw [hg]
      exact hverify
    obtain ⟨hwaiting,hremaining⟩ :=
      ho.remaining_restart hsound ((hhandles j hj).trans ho.handle) hne hworker
    rw [hg] at hwaiting hremaining
    have hv : (s.cancel i).worker .verify = (s.cancel i).verify := rfl
    have hw : s.worker .verify = s.verify := rfl
    rw [hv,hw] at hwaiting
    rw [hw] at hremaining
    split
    · next hlast =>
      rw [if_pos hlast,List.append_nil] at hwaiting
      rw [if_pos hlast] at hremaining
      exact ⟨hwaiting,hremaining,(hsound.workers .verify).nothing_to_come hlast⟩
    · next hlast =>
      rw [if_neg hlast] at hwaiting hremaining
      exact ⟨hwaiting,hremaining⟩

/-! ## A task that is cancelled twice -/

/-- A task for backtests is cancelled, and then another one is submitted. -/
def cancelledOnce : List (Supervisor.Event Request Json) :=
  [.submit .verify plainVerify,.handle 0 .cancel,.submit .verify plainVerify]

/-- Two searches wait for the worker. -/
def searchedTwice : List (Supervisor.Event Request Json) :=
  [.submit .search plainSearch,.submit .search plainSearch]

theorem cancel_reaches_verify_not_search :
    ((Supervisor.new.run searchedTwice).cancel 0).allHeard 1 [.die .search,.handle 1 .report] =
      (Supervisor.new.run searchedTwice).allHeard 1 [.die .search,.handle 1 .report] ∧
    ((Supervisor.new.run cancelledOnce).cancel 0).remaining 1 =
      ([Mail.failure (Supervisor.new.run cancelledOnce).verify.restartReason],true) := by
  obtain ⟨hmarking,-⟩ := cancel_reaches searchedTwice rfl (i := 0) rfl
  obtain ⟨-,hrestarting⟩ := cancel_reaches cancelledOnce rfl (i := 0) rfl
  obtain ⟨-,-,-,-,hreached⟩ := hrestarting rfl rfl
  exact ⟨((hmarking (.inl rfl) _).2 1 (by decide)).2,
    (hreached 1 _ (by decide) ⟨rfl,rfl,rfl⟩ rfl).2⟩

/-- The second cancellation takes the request of another task away and lets it fail. -/
theorem cancel_again_harms : ∃ s : Supervisor Request Json,
    s = Supervisor.new.run cancelledOnce ∧
    s.handles[0]?.map (fun h => (h.kind,h.cancelled,h.done)) = some (.verify,true,false) ∧
    s.verify.requested = [2] ∧ s.remaining 1 = ([],false) ∧
    (s.cancel 0).verify.requested = [] ∧ (s.cancel 0).verify.starts = s.verify.starts + 1 ∧
    (s.cancel 0).remaining 1 = ([Mail.failure s.verify.restartReason],true) :=
  ⟨_,rfl,rfl,rfl,rfl,rfl,rfl,rfl⟩

end DrawFormula.Worker
