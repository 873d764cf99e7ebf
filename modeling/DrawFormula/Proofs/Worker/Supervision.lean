import DrawFormula.Proofs.Worker.Deeds

/-! # Runs of a supervisor

A run of a supervisor is any sequence of submissions, of steps of its two workers, of their ends and
new starts, of cancellations and of readings through any of its handles. On each of the workers an
event of the supervisor acts as a short run, and one that is not about a handle leaves the handle
alone and does not touch its task. The handles have the numbers of their tasks, and both workers
stay sound.
-/
namespace DrawFormula.Worker
open Mail
variable {ρ μ : Type}

namespace Supervisor

/-! ## Parts of a supervisor -/

/-- The supervisor with one of its workers changed. -/
def onWorker (s : Supervisor ρ μ) (kind : RequestKind) (f : Worker ρ μ → Worker ρ μ) :
    Supervisor ρ μ := s.setWorker kind (f (s.worker kind))

section Parts
variable (s : Supervisor ρ μ) (kind k : RequestKind) (w : Worker ρ μ)

@[simp] theorem setWorker_worker : s.setWorker k (s.worker k) = s := by cases k <;> rfl

@[simp] theorem worker_setWorker :
    (s.setWorker k w).worker kind = if k = kind then w else s.worker kind := by
  cases k <;> cases kind <;> rfl

@[simp] theorem handles_setWorker : (s.setWorker k w).handles = s.handles := by cases k <;> rfl

@[simp] theorem nextTask_setWorker : (s.setWorker k w).nextTask = s.nextTask := by cases k <;> rfl

@[simp] theorem worker_setHandle (i : ℕ) (h : Handle μ) :
    (s.setHandle i h).worker kind = s.worker kind := by cases kind <;> rfl

@[simp] theorem worker_submit (request : ρ) : (s.submit k request).worker kind =
    if k = kind then (s.worker kind).send s.nextTask request else s.worker kind := by
  cases k <;> cases kind <;> rfl

@[simp] theorem handles_submit (request : ρ) :
    (s.submit k request).handles = s.handles ++ [.new s.nextTask k] := by cases k <;> rfl

@[simp] theorem nextTask_submit (request : ρ) :
    (s.submit k request).nextTask = s.nextTask + 1 := by cases k <;> rfl

theorem setHandle_self {i : ℕ} {h : Handle μ} (hi : s.handles[i]? = some h) :
    s.setHandle i h = s := by
  obtain ⟨hlt,rfl⟩ := List.getElem?_eq_some_iff.mp hi
  rw [setHandle,List.set_getElem_self]

theorem handle_setHandle {i : ℕ} {h : Handle μ} (hi : s.handles[i]? = some h) (h' : Handle μ) :
    (s.setHandle i h').handles[i]? = some h' :=
  List.getElem?_set_self (List.getElem?_eq_some_iff.mp hi).1

theorem worker_onWorker (f : Worker ρ μ → Worker ρ μ) :
    (s.onWorker k f).worker kind = if k = kind then f (s.worker kind) else s.worker kind := by
  rw [onWorker,worker_setWorker]
  split
  · next h => rw [h]
  · rfl

end Parts

variable [Mail μ]

/-! ## Events -/

/-- What can happen to a supervisor. -/
inductive Event (ρ μ : Type) [Mail μ] where
  | submit (kind : RequestKind) (request : ρ)
  | take (kind : RequestKind) (how : Answering ρ μ)
  | emit (kind : RequestKind)
  | die (kind : RequestKind)
  | stop (kind : RequestKind)
  | restart (kind : RequestKind) (dropped : Option TaskId)
  | handle (i : ℕ) (d : Handle.Deed)

/-- What is passed on when something is done through a handle, and the supervisor after it. -/
def through (s : Supervisor ρ μ) (i : ℕ) (d : Handle.Deed) : List μ × Supervisor ρ μ :=
  match s.handles[i]? with
  | none => ([],s)
  | some h =>
    let (ms,h',w) := h.act (s.worker h.kind) d
    (ms,(s.setHandle i h').setWorker h.kind w)

/-- The supervisor after an event. -/
def apply (s : Supervisor ρ μ) : Event ρ μ → Supervisor ρ μ
  | .submit kind request => s.submit kind request
  | .take kind how => s.onWorker kind fun w => w.take how.answer
  | .emit kind => s.onWorker kind Worker.emit
  | .die kind => s.onWorker kind Worker.die
  | .stop kind => s.onWorker kind Worker.stop
  | .restart kind dropped => s.onWorker kind fun w => w.restart dropped
  | .handle i d => (s.through i d).2

/-- The supervisor after a run. -/
def run (s : Supervisor ρ μ) (es : List (Event ρ μ)) : Supervisor ρ μ := es.foldl apply s

/-- A shutdown is a stop of both workers. -/
example (s : Supervisor ρ μ) : s.shutdown = s.run [.stop .verify,.stop .search] := rfl

/-- What an event passes on through a handle. -/
def heard (s : Supervisor ρ μ) (i : ℕ) : Event ρ μ → List μ
  | .handle j d => if j = i then (s.through i d).1 else []
  | _ => []

/-- All that a run passes on through a handle. -/
def allHeard (s : Supervisor ρ μ) (i : ℕ) : List (Event ρ μ) → List μ
  | [] => []
  | e :: es => s.heard i e ++ (s.apply e).allHeard i es

/-- The worker that an event is for, and what it is for that worker. -/
def acts (s : Supervisor ρ μ) : Event ρ μ → RequestKind × List (Worker.Event ρ μ)
  | .submit kind request => (kind,[.send s.nextTask request])
  | .take kind how => (kind,[.take how])
  | .emit kind => (kind,[.emit])
  | .die kind => (kind,[.die])
  | .stop kind => (kind,[.stop])
  | .restart kind dropped => (kind,[.restart dropped])
  | .handle i d =>
    match s.handles[i]? with
    | none => (.verify,[])
    | some h => (h.kind,h.events (s.worker h.kind) d)

/-- What an event is for a worker. -/
def effect (s : Supervisor ρ μ) (kind : RequestKind) (e : Event ρ μ) : List (Worker.Event ρ μ) :=
  if (s.acts e).1 = kind then (s.acts e).2 else []

/-- What a run is for a worker. -/
def effects (s : Supervisor ρ μ) (kind : RequestKind) : List (Event ρ μ) → List (Worker.Event ρ μ)
  | [] => []
  | e :: es => s.effect kind e ++ (s.apply e).effects kind es

/-- Whether an event goes through a handle. -/
def Event.Concerns (i : ℕ) : Event ρ μ → Prop
  | .handle j _ => j = i
  | _ => False

theorem Event.exists_of_concerns {i : ℕ} {e : Event ρ μ} (h : e.Concerns i) :
    ∃ d, e = .handle i d := by
  cases e with
  | handle j d =>
    obtain rfl : j = i := h
    exact ⟨d,rfl⟩
  | _ => exact h.elim

/-! ## Events at a handle -/

section
variable {s : Supervisor ρ μ} {i : ℕ} {h : Handle μ}

theorem through_of_handle (hi : s.handles[i]? = some h) (d : Handle.Deed) :
    s.through i d = ((h.act (s.worker h.kind) d).1,
      (s.setHandle i (h.act (s.worker h.kind) d).2.1).setWorker h.kind
        (h.act (s.worker h.kind) d).2.2) := by
  unfold through
  rw [hi]

theorem through_of_none (hi : s.handles[i]? = none) (d : Handle.Deed) :
    s.through i d = ([],s) := by
  unfold through
  rw [hi]

theorem acts_of_handle (hi : s.handles[i]? = some h) (d : Handle.Deed) :
    s.acts (.handle i d) = (h.kind,h.events (s.worker h.kind) d) := by
  simp only [acts,hi]

theorem acts_of_none (hi : s.handles[i]? = none) (d : Handle.Deed) :
    s.acts (.handle i d) = (.verify,[]) := by
  simp only [acts,hi]

variable (s i)

/-- To cancel through a handle is to cancel its task. -/
theorem through_cancel : s.through i .cancel = ([],s.cancel i) := by
  rcases hi : s.handles[i]? with _ | h
  · rw [through_of_none hi,cancel,hi]
  · have hsame : (s.setHandle i h.muted).setWorker h.kind (s.worker h.kind) =
        s.setHandle i h.muted := by
      rw [← worker_setHandle s h.kind i h.muted,setWorker_worker]
    rw [through_of_handle hi,cancel,hi]
    simp only [Handle.act]
    by_cases hc : h.kind = .verify ∧ h.done = false
    · simp [hc,Handle.muted]
    · have hcondition : ¬ (decide (h.kind = .verify) && !h.done) = true := by simpa using hc
      rw [if_neg hc,if_neg hcondition,hsame]
      rfl

end

/-! ## The workers of a run -/

section Workers
variable (s : Supervisor ρ μ) (kind : RequestKind)

/-- An event is for each worker what its effect says. -/
theorem worker_apply (e : Event ρ μ) :
    (s.apply e).worker kind = (s.worker kind).run (s.effect kind e) := by
  -- all but what goes through a handle is one event for one worker
  have hone (k : RequestKind) (x : Worker.Event ρ μ) (hacts : s.acts e = (k,[x]))
      (happly : (s.apply e).worker kind =
        if k = kind then (s.worker kind).apply x else s.worker kind) :
      (s.apply e).worker kind = (s.worker kind).run (s.effect kind e) := by
    rw [happly,effect,hacts]
    by_cases hk : k = kind
    · simp [hk,Worker.run]
    · simp [hk,Worker.run]
  cases e with
  | submit k request => exact hone k _ rfl (s.worker_submit kind k request)
  | take k how => exact hone k _ rfl (s.worker_onWorker kind k _)
  | emit k | die k | stop k => exact hone k _ rfl (s.worker_onWorker kind k _)
  | restart k dropped => exact hone k _ rfl (s.worker_onWorker kind k _)
  | handle i d =>
    rcases hi : s.handles[i]? with _ | h
    · rw [apply,through_of_none hi,effect,acts_of_none hi,ite_self]
      rfl
    · rw [apply,through_of_handle hi,effect,acts_of_handle hi,worker_setWorker,worker_setHandle]
      split
      · next hk => rw [← hk,h.worker_act]
      · rfl

theorem worker_run (es : List (Event ρ μ)) :
    (s.run es).worker kind = (s.worker kind).run (s.effects kind es) := by
  induction es generalizing s with
  | nil => rfl
  | cons e es ih =>
    rw [effects,run_append,← worker_apply]
    exact ih (s.apply e)

variable {s kind}

theorem run_append (s : Supervisor ρ μ) (es more : List (Event ρ μ)) :
    s.run (es ++ more) = (s.run es).run more := List.foldl_append

theorem starts_of_run_append (es : List (Event ρ μ)) {more : List (Event ρ μ)}
    (h : ((s.run (es ++ more)).worker kind).starts = (s.worker kind).starts) :
    ((s.run es).worker kind).starts = (s.worker kind).starts ∧
      (((s.run es).run more).worker kind).starts = ((s.run es).worker kind).starts := by
  have hfirst := (s.worker kind).starts_run (s.effects kind es)
  have hmore := ((s.run es).worker kind).starts_run ((s.run es).effects kind more)
  rw [← worker_run] at hfirst hmore
  rw [← run_append,h] at hmore
  have hone : ((s.run es).worker kind).starts = (s.worker kind).starts :=
    Nat.le_antisymm hmore hfirst
  exact ⟨hone,by rw [← run_append,h,hone]⟩

end Workers

end Supervisor

end DrawFormula.Worker
