import DrawFormula.Proofs.Worker.Delivery
import DrawFormula.Proofs.Worker.Service

/-! # Tasks that are left behind

The tasks of all open handles stay served as long as no request is submitted to a worker that has
ended while a task for it is open whose last message is not in its buffer: the new start that goes
with the submission takes the queues away, and, unlike a restart, leaves the pending tasks as they
are. A handle left behind like this never ends, however long the worker goes on.
-/
namespace DrawFormula.Worker
open Mail
variable {ρ μ : Type} [Mail μ]

namespace Supervisor
variable {s : Supervisor ρ μ} {i : ℕ} {h : Handle μ} {e : Event ρ μ}

/-- Whether the tasks of all open handles are served. -/
def Served (s : Supervisor ρ μ) : Prop :=
  ∀ i h, s.Open i h → (s.worker h.kind).Serves h.task

/-- Whether an event, if it is a submission, finds a running worker or no open task for it whose
last message is not in its buffer. -/
def Careful (s : Supervisor ρ μ) : Event ρ μ → Prop
  | .submit kind _ => (s.worker kind).isAlive = true ∨ ∀ i h, s.Open i h → h.kind = kind →
      ∃ b, (s.worker kind).buffer? h.task = some b ∧ hasLast b = true
  | _ => True

/-! ## Submissions -/

omit [Mail μ] in
theorem Open.submit (ho : s.Open i h) (kind : RequestKind) (request : ρ) :
    (s.submit kind request).Open i h := by
  obtain ⟨hlt,-⟩ := List.getElem?_eq_some_iff.mp ho.handle
  refine ⟨?_,ho.isEnded,?_⟩
  · rw [handles_submit,List.getElem?_append_left hlt,ho.handle]
  · rw [worker_submit]
    split
    · simp [ho.registered]
    · exact ho.registered

theorem Sound.serves_submit_iff (hs : s.Sound) (ho : s.Open i h) (request : ρ)
    (hserves : (s.worker h.kind).Serves h.task) :
    ((s.submit h.kind request).worker h.kind).Serves h.task ↔ (s.worker h.kind).isAlive = true ∨
      ∃ b, (s.worker h.kind).buffer? h.task = some b ∧ hasLast b = true := by
  have hne : s.nextTask ≠ h.task := Nat.ne_of_gt (hs.task_lt ho.handle)
  rw [worker_submit,if_pos rfl]
  exact (hs.workers h.kind).serves_send_iff hne request hserves

theorem Sound.served_submit_iff (hs : s.Sound) (hserved : s.Served) (kind : RequestKind)
    (request : ρ) : (s.submit kind request).Served ↔ s.Careful (.submit kind request) := by
  constructor
  · intro hafter
    cases ha : (s.worker kind).isAlive with
    | true => exact .inl ha
    | false =>
      refine .inr fun i h ho hkind => ?_
      subst hkind
      have hcases := (hs.serves_submit_iff ho request (hserved i h ho)).mp
        (hafter i h (ho.submit h.kind request))
      exact hcases.resolve_left (by simp [ha])
  · intro hcareful i h ho
    rcases handle_submit_cases ho.handle with hi | ⟨-,rfl⟩
    · -- an earlier task: only the new start can do harm, and only at the same worker
      have hne : s.nextTask ≠ h.task := Nat.ne_of_gt (hs.task_lt hi)
      have hregistered := ho.registered
      rw [worker_submit] at hregistered ⊢
      by_cases hk : kind = h.kind
      · subst hk
        rw [if_pos rfl] at hregistered ⊢
        rw [registered_send,decide_eq_false hne,Bool.false_or] at hregistered
        have hopen : s.Open i h := ⟨hi,ho.isEnded,hregistered⟩
        refine ((hs.workers h.kind).serves_send_iff hne request (hserved i h hopen)).mpr ?_
        exact hcareful.imp_right fun hbuffers => hbuffers i h hopen rfl
      · rw [if_neg hk] at hregistered ⊢
        exact hserved i h ⟨hi,ho.isEnded,hregistered⟩
    · -- the new task: its request is in the queue
      refine .inr (.inr (.inl (.inl ?_)))
      have hworker : (s.submit kind request).worker (Handle.new (μ := μ) s.nextTask kind).kind =
          (s.worker kind).send s.nextTask request := by rw [worker_submit]; exact if_pos rfl
      rw [hworker,(hs.workers kind).requested_send]
      exact List.mem_append_right _ (List.mem_singleton_self _)

/-! ## Other events -/

theorem Sound.open_of_open_apply (hs : s.Sound) (hi : s.handles[i]? = some h) {h' : Handle μ}
    (ho : (s.apply e).Open i h') : s.Open i h := by
  obtain ⟨g,hg,htask,hkind,hsame⟩ := exists_handle_apply hi e
  obtain rfl : g = h' := Option.some.inj (hg.symm.trans ho.handle)
  refine ⟨hi,?_,?_⟩
  · refine Bool.eq_false_iff.mpr fun hended => ?_
    obtain ⟨-,g',hg',hended'⟩ := heard_of_ended hi hended e
    obtain rfl : g' = g := Option.some.inj (hg'.symm.trans ho.handle)
    rw [ho.isEnded] at hended'
    cases hended'
  · have hregistered := ho.registered
    rw [htask,hkind,worker_apply] at hregistered
    exact registered_of_run hregistered (hs.effect_brings_not hi)

/-- An event that is no submission leaves the tasks of all open handles served. -/
theorem Sound.served_apply (hs : s.Sound) (hserved : s.Served)
    (hnot : ∀ k request, e ≠ .submit k request) : (s.apply e).Served := by
  intro i h' ho
  obtain ⟨hlt,-⟩ := List.getElem?_eq_some_iff.mp ho.handle
  rw [(counts_apply hnot).2] at hlt
  have hi := List.getElem?_eq_getElem hlt
  have hopen := hs.open_of_open_apply hi ho
  have hserves := hserved i _ hopen
  obtain ⟨g,hg,htask,hkind,hsame⟩ := exists_handle_apply hi e
  obtain rfl : g = h' := Option.some.inj (hg.symm.trans ho.handle)
  have hregistered := ho.registered
  rw [htask,hkind] at hregistered ⊢
  by_cases hc : e.Concerns i
  · obtain ⟨d,rfl⟩ := Event.exists_of_concerns hc
    obtain rfl := Option.some.inj (hg.symm.trans (handle_apply_self hi d))
    rw [worker_apply_self hi]
    exact Handle.serves_act (hs.workers _) d ho.isEnded hserves
  · rw [worker_apply] at hregistered ⊢
    refine (hs.workers _).serves_run (fun x hx => ?_) hregistered hserves
    obtain ⟨hbrings,hstarts⟩ := effect_brings_nothing hnot hx
    exact ⟨hbrings,hstarts,hs.effect_touches_not hi hc x hx⟩

/-- A careful event, and no other, leaves the tasks of all open handles served. -/
theorem Sound.served_apply_iff (hs : s.Sound) (hserved : s.Served) (e : Event ρ μ) :
    (s.apply e).Served ↔ s.Careful e := by
  rcases submit_or_not e with ⟨k,request,rfl⟩ | hnot
  · exact hs.served_submit_iff hserved k request
  · refine iff_of_true (hs.served_apply hserved hnot) ?_
    cases e with
    | submit k request => exact absurd rfl (hnot k request)
    | _ => trivial

/-! ## Runs -/

theorem Sound.served_run (hs : s.Sound) (hserved : s.Served) {es : List (Event ρ μ)}
    (hcareful : ∀ before e after, es = before ++ e :: after → (s.run before).Careful e) :
    (s.run es).Served := by
  induction es generalizing s with
  | nil => exact hserved
  | cons e es ih =>
    refine ih (hs.apply e) ((hs.served_apply_iff hserved e).mpr (hcareful [] e es rfl)) ?_
    rintro before e' after rfl
    exact hcareful (e :: before) e' after rfl

theorem served_new : (new : Supervisor ρ μ).Served := by
  intro i h ho
  have hnone := ho.handle
  simp [new] at hnone

end Supervisor

/-- Along a run the tasks of all open handles are served, up to each of its events, just as long as
every submission is careful. The messages of an open handle end sooner or later, however the worker
answers, if its task is served; if not, they never do. -/
theorem served_throughout_iff (es : List (Supervisor.Event ρ μ)) :
    ((∀ before after, es = before ++ after → (Supervisor.new.run before).Served) ↔
      ∀ before e after, es = before ++ e :: after → (Supervisor.new.run before).Careful e) ∧
    ∀ s i h, s = Supervisor.new.run es → s.Open i h → ∀ hows : ℕ → Answering ρ μ,
      ((s.worker h.kind).Serves h.task →
        ∃ n, (h.messages ((s.worker h.kind).works hows n)).2.1 = true) ∧
      (¬ (s.worker h.kind).Serves h.task →
        ∀ n, (h.messages ((s.worker h.kind).works hows n)).2.1 = false) := by
  refine ⟨⟨fun hserved before e after hes => ?_,fun hcareful before after hes => ?_⟩,?_⟩
  · have hnow := hserved before (e :: after) hes
    have hnext := hserved (before ++ [e]) after (by rw [hes,List.append_assoc]; rfl)
    rw [Supervisor.run_append] at hnext
    exact ((Supervisor.sound_new.run before).served_apply_iff hnow e).mp hnext
  · refine Supervisor.sound_new.served_run Supervisor.served_new fun b e a hb => ?_
    exact hcareful b e (a ++ after) (by rw [hes,hb,List.append_assoc]; rfl)
  · rintro s i h rfl ho hows
    exact ((Supervisor.sound_new.run es).workers h.kind).messages_end ho.isEnded hows

/-! ## A task that is left behind -/

/-- A request is submitted and taken. -/
def taken : List (Supervisor.Event Request Json) :=
  [.submit .verify plainVerify,.take .verify (.ofEngine Engine.default)]

theorem served_throughout_taken : (Supervisor.new.run taken).Served ∧
    ∃ n, ((Handle.new 1 .verify).messages ((Supervisor.new.run taken).verify.works
      (fun _ => .ofEngine Engine.default) n)).2.1 = true := by
  obtain ⟨hserved,hends⟩ := served_throughout_iff taken
  refine ⟨hserved.mpr (fun before e after hes => ?_) taken [] rfl,?_⟩
  · rcases before with _ | ⟨x,_ | ⟨y,rest⟩⟩
    · obtain ⟨rfl,-⟩ := List.cons.inj hes
      exact .inr fun i h ho => absurd ho.handle (by simp [Supervisor.run,Supervisor.new])
    · obtain ⟨-,hes⟩ := List.cons.inj hes
      obtain ⟨rfl,-⟩ := List.cons.inj hes
      trivial
    · simp [taken] at hes
  · exact (hends _ 0 (.new 1 .verify) rfl ⟨rfl,rfl,rfl⟩ _).1 (.inr (.inr (.inl (.inr ⟨rfl,_,rfl⟩))))

/-- A second request is submitted when the worker has died over the first one. -/
def resubmitted : List (Supervisor.Event Request Json) :=
  [.submit .verify plainVerify,.die .verify,.submit .verify plainVerify]

/-- The first task is left behind: its handle waits for ever, although the worker runs. -/
theorem submit_strands : ∃ s : Supervisor Request Json, s = Supervisor.new.run resubmitted ∧
    s.Open 0 (.new 1 .verify) ∧ ¬ s.verify.Serves 1 ∧
    ∀ hows n, ((Handle.new 1 .verify).messages (s.verify.works hows n)).2.1 = false := by
  have hsound := (Supervisor.sound_new.run resubmitted).workers .verify
  have hnot : ¬ (Supervisor.new.run resubmitted).verify.Serves 1 := by
    intro hserves
    rcases hsound.serves_iff.mp hserves with hlast | hrequested | hdead
    · cases hlast
    · exact absurd hrequested (by decide)
    · cases hdead
  exact ⟨_,rfl,⟨rfl,rfl,rfl⟩,hnot,fun hows n =>
    (hsound.messages_end (h := .new 1 .verify) rfl hows).2 hnot n⟩

end DrawFormula.Worker
