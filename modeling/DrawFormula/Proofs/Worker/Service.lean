import DrawFormula.Proofs.Worker.Handles

/-! # Tasks that are served

A task is served if its last message is in its buffer or on the queue, if its request is in the
queue or at hand, or if the worker does not run, since then its handle reports a failure. A worker
that goes on by itself brings the last message of every task that is served so, and none for a task
that is not. A step that is about other tasks keeps a task served, unless it starts the worker with
new queues and leaves the pending tasks unsettled.
-/
namespace DrawFormula.Worker
open Mail
variable {ρ μ : Type} [Mail μ]

/-- Whether a task has its last message or will be answered, if it has no failure to expect. -/
def Serves (w : Worker ρ μ) (t : TaskId) : Prop :=
  (∃ b, w.buffer? t = some b ∧ hasLast b = true) ∨
  hasLast (messagesFor t w.responses) = true ∨
  (t ∈ w.requested ∨ w.isAlive = true ∧ ∃ ms, w.working = some (t,ms)) ∨
  w.isAlive = false

/-- The next step of a worker that is left to itself. -/
def work (w : Worker ρ μ) (how : Answering ρ μ) : Worker ρ μ :=
  if w.working.isSome then w.emit else w.take how.answer

/-- A worker that is left to itself after so many steps. -/
def works (w : Worker ρ μ) (hows : ℕ → Answering ρ μ) : ℕ → Worker ρ μ
  | 0 => w
  | n + 1 => (w.work (hows 0)).works (fun k => hows (k + 1)) n

variable {w : Worker ρ μ} {next t : TaskId}

/-- A task is served if its last message waits or is at hand, if its request waits, or if the worker
does not run. -/
theorem Sound.serves_iff (hs : w.Sound next) : w.Serves t ↔
    hasLast (w.outlook t) = true ∨ t ∈ w.requested ∨ w.isAlive = false := by
  have hbuffer : (∃ b, w.buffer? t = some b ∧ hasLast b = true) ↔
      hasLast ((w.buffer? t).getD []) = true := by
    cases w.buffer? t <;> simp
  have hhand : (w.isAlive = true ∧ ∃ ms, w.working = some (t,ms)) ↔
      hasLast (w.atHand t) = true := by
    constructor
    · rintro ⟨-,ms,hw⟩
      rw [atHand_of_some hw,if_pos rfl]
      exact (hs.working_alive _ hw).2
    · intro hlast
      rcases hw : w.working with _ | ⟨u,ms⟩
      · rw [atHand_of_none hw] at hlast
        cases hlast
      · rw [atHand_of_some hw] at hlast
        split at hlast
        · next hu => exact ⟨(hs.working_alive _ hw).1,ms,by rw [hu]⟩
        · cases hlast
  rw [Serves,hbuffer,hhand,outlook,waiting,hasLast_append,hasLast_append,Bool.or_eq_true,
    Bool.or_eq_true]
  grind

/-! ## A worker that is left to itself -/

theorem work_of_idle (hw : w.working = none) (how : Answering ρ μ) :
    w.work how = w.take how.answer := by rw [work,hw]; rfl

theorem work_of_busy {x : TaskId × List μ} (hw : w.working = some x) (how : Answering ρ μ) :
    w.work how = w.emit := by rw [work,hw]; rfl

theorem Sound.work (hs : w.Sound next) (how : Answering ρ μ) : (w.work how).Sound next := by
  unfold Worker.work
  split
  · exact hs.emit
  · exact hs.take how

theorem isAlive_work (how : Answering ρ μ) : (w.work how).isAlive = w.isAlive := by
  unfold Worker.work
  split
  · exact w.isAlive_emit
  · exact w.isAlive_take how.answer

/-- Whether a worker that is left to itself comes to a state of this kind, however it answers. -/
def Comes (P : Worker ρ μ → Prop) (w : Worker ρ μ) : Prop :=
  ∀ hows, ∃ n, P (w.works hows n)

theorem Comes.now {P : Worker ρ μ → Prop} (h : P w) : Comes P w := fun _ => ⟨0,h⟩

theorem Comes.step {P : Worker ρ μ → Prop} (h : ∀ how, Comes P (w.work how)) : Comes P w := by
  intro hows
  obtain ⟨n,hn⟩ := h (hows 0) fun k => hows (k + 1)
  exact ⟨n + 1,hn⟩

/-- The worker sends all that is at hand. -/
theorem Sound.comes_idle {P : Worker ρ μ → Prop} {ms : List μ} {u : TaskId} (hs : w.Sound next)
    (hw : w.working = some (u,ms))
    (hP : ∀ v : Worker ρ μ, v.Sound next → v.isAlive = w.isAlive → v.working = none →
      v.requests = w.requests → (∀ t, v.outlook t = w.outlook t) → Comes P v) : Comes P w := by
  induction ms generalizing w with
  | nil => cases (hs.working_alive _ hw).2
  | cons m rest ih =>
    refine Comes.step fun how => ?_
    have hwork : w.work how = w.emit := work_of_busy hw how
    have halive := w.isAlive_emit
    have hworking : w.emit.working = if rest.isEmpty then none else some (u,rest) := by
      have ha := (hs.working_alive _ hw).1
      rw [Worker.emit,ha,hw]
    rw [hwork]
    cases rest with
    | nil => exact hP _ hs.emit halive hworking w.requests_emit hs.outlook_emit
    | cons m' rest =>
      refine ih hs.emit hworking fun v hv ha hidle hr ho => hP v hv (ha.trans halive) hidle
        (hr.trans w.requests_emit) fun t => (ho t).trans (hs.outlook_emit t)

/-- A running worker brings the last message of every task that is at hand or requested. -/
theorem Sound.comes_last (hs : w.Sound next) (ha : w.isAlive = true)
    (ht : hasLast (w.outlook t) = true ∨ t ∈ w.requested) :
    Comes (fun v => hasLast (v.waiting t) = true) w := by
  -- by induction on the queue; the worker sends what is at hand before it takes the next request
  generalize hr : w.requests = requests
  induction requests generalizing w with
  | nil =>
    have hidle (v : Worker ρ μ) (hw : v.working = none) (hlast : hasLast (v.outlook t) = true) :
        Comes (fun v => hasLast (v.waiting t) = true) v :=
      Comes.now (outlook_of_none hw t ▸ hlast)
    have hlast : hasLast (w.outlook t) = true := ht.resolve_right (by simp [requested,hr])
    rcases hw : w.working with _ | ⟨u,ms⟩
    · exact hidle w hw hlast
    · exact hs.comes_idle hw fun v _ _ hnone _ ho => hidle v hnone ((ho t).symm ▸ hlast)
  | cons r rest ih =>
    obtain ⟨u,request⟩ := r
    have hidle (v : Worker ρ μ) (hv : v.Sound next) (hva : v.isAlive = true)
        (hw : v.working = none) (hvr : v.requests = (u,request) :: rest)
        (hvt : hasLast (v.outlook t) = true ∨ t ∈ v.requested) :
        Comes (fun v => hasLast (v.waiting t) = true) v := by
      refine Comes.step fun how => ?_
      obtain ⟨hworking,hrequests⟩ := hv.take_next hva hw hvr how.answer
      rw [work_of_idle hw]
      refine ih (hv.take how) ?_ ?_ hrequests
      · rwa [isAlive_take]
      · by_cases hut : u = t
        · left
          rw [outlook,hasLast_append,atHand_of_some hworking,if_pos hut,
            (how.conclusive request).hasLast,Bool.or_true]
        · rw [outlook_take how.answer (by simpa [requested,hvr] using hut)]
          refine hvt.imp_right fun hmem => ?_
          rw [requested,hrequests]
          rw [requested,hvr,List.map_cons] at hmem
          exact (List.mem_cons.mp hmem).resolve_left (Ne.symm hut)
    rcases hw : w.working with _ | ⟨u',ms⟩
    · exact hidle w hs ha hw hr ht
    · refine hs.comes_idle hw fun v hv hva hnone hvr ho => ?_
      refine hidle v hv (hva.trans ha) hnone (hvr.trans hr) ?_
      rw [ho t,requested,hvr]
      exact ht

/-- A running worker brings no last message of a task that is neither at hand nor requested. -/
theorem Sound.works_without (hs : w.Sound next) (ha : w.isAlive = true)
    (hlast : hasLast (w.outlook t) = false) (ht : t ∉ w.requested) (hows : ℕ → Answering ρ μ)
    (n : ℕ) : (w.works hows n).isAlive = true ∧ hasLast ((w.works hows n).waiting t) = false := by
  induction n generalizing w hows with
  | zero =>
    rw [outlook,hasLast_append,Bool.or_eq_false_iff] at hlast
    exact ⟨ha,hlast.1⟩
  | succ n ih =>
    have houtlook : (w.work (hows 0)).outlook t = w.outlook t := by
      unfold Worker.work
      split
      · exact hs.outlook_emit t
      · refine outlook_take _ fun hhead => ht ?_
        exact List.mem_of_head? hhead
    have hrequested : t ∉ (w.work (hows 0)).requested := by
      unfold Worker.work
      split
      · rwa [requested_emit]
      · exact fun hmem => ht ((w.requested_take _).subset hmem)
    exact ih (hs.work _) ((isAlive_work _).trans ha) (houtlook ▸ hlast) hrequested _

/-- The messages of an open handle end sooner or later if its task is served; if not, they do not
end, however long the worker goes on. -/
theorem Sound.messages_end (hs : w.Sound next) {h : Handle μ} (he : h.isEnded = false)
    (hows : ℕ → Answering ρ μ) :
    (w.Serves h.task → ∃ n, (h.messages (w.works hows n)).2.1 = true) ∧
      (¬ w.Serves h.task → ∀ n, (h.messages (w.works hows n)).2.1 = false) := by
  have hends (v : Worker ρ μ) : (h.messages v).2.1 = (hasLast (v.waiting h.task) || !v.isAlive) :=
    (Handle.messages_spec v he).2
  rw [hs.serves_iff]
  constructor
  · intro hserves
    cases ha : w.isAlive with
    | false =>
      refine ⟨0,?_⟩
      have hnow := hends w
      rw [ha,Bool.not_false,Bool.or_true] at hnow
      exact hnow
    | true =>
      rw [ha] at hserves
      obtain ⟨n,hn⟩ := hs.comes_last ha (hserves.imp_right fun h => h.resolve_right (by simp)) hows
      exact ⟨n,by rw [hends,hn,Bool.true_or]⟩
  · intro hnot n
    have ha : w.isAlive = true := by
      cases ha : w.isAlive with
      | true => rfl
      | false => exact absurd (.inr (.inr ha)) hnot
    have hlast : hasLast (w.outlook h.task) = false :=
      Bool.eq_false_iff.mpr fun hlast => hnot (.inl hlast)
    obtain ⟨halive,hnone⟩ :=
      hs.works_without ha hlast (fun ht => hnot (.inr (.inl ht))) hows n
    rw [hends,halive,hnone]
    rfl

/-! ## Steps that keep a task served -/

/-- An event that is not about a pending task keeps it served, unless it starts the worker. -/
theorem Sound.serves_apply (hs : w.Sound next) {x : Event ρ μ} (hbrings : ∀ u, ¬ x.Brings u)
    (hstarts : ¬ x.Starts) (htouches : ¬ x.Touches t) (ht : (w.apply x).registered t = true)
    (hserves : w.Serves t) : (w.apply x).Serves t := by
  have hrun : (w.run [x]).registered t = true := ht
  have hregistered : w.registered t = true :=
    registered_of_run hrun fun _ hy => List.mem_singleton.mp hy ▸ hbrings t
  rw [hs.serves_iff] at hserves
  rw [(hs.apply hbrings).serves_iff]
  have hsame (v : Worker ρ μ) (ho : v.outlook t = w.outlook t) (hr : v.requested = w.requested)
      (ha : v.isAlive = w.isAlive) :
      hasLast (v.outlook t) = true ∨ t ∈ v.requested ∨ v.isAlive = false := by
    rwa [ho,hr,ha]
  cases x with
  | register u | send u _ | arrive u _ => exact absurd rfl (hbrings u)
  | ensureStarted => exact absurd trivial hstarts
  | forget u =>
    refine hsame _ ?_ rfl rfl
    rw [outlook,Worker.apply,waiting_forget_of_ne w (Ne.symm htouches)]
    rfl
  | receive u =>
    refine hsame _ ?_ (w.requested_receive u) (w.isAlive_receive u)
    rw [outlook,Worker.apply,waiting_receive_of_ne w (Ne.symm htouches) hregistered,
      atHand_receive]
    rfl
  | emit =>
    exact hsame _ (hs.outlook_emit t) w.requested_emit w.isAlive_emit
  | die => exact .inr (.inr w.isAlive_die)
  | stop => exact .inr (.inr rfl)
  | restart dropped =>
    -- the restart puts a failure in the buffer, unless a last message is there
    left
    have hd : some t ≠ dropped := by
      have hboth := ht
      rw [Worker.apply,registered_restart,Bool.and_eq_true] at hboth
      simpa using hboth.1
    rw [outlook,hasLast_append,Worker.apply,waiting_restart hregistered hd,hasLast_settleBuffer]
    rfl
  | take how =>
    have halive := w.isAlive_take how.answer
    rcases w.take_cases how.answer with hnone | ⟨u,request,rest,sent,-,-,hq,htake⟩
    · rw [Worker.apply,hnone]
      exact hserves
    · have hrequested : w.requested = u :: rest.map Prod.fst := by simp [requested,requests,hq]
      have hafter : (w.take how.answer).requested = rest.map Prod.fst := by rw [htake]; rfl
      have hworking : (w.take how.answer).working = some (u,how.answer request) := by rw [htake]
      rw [Worker.apply,halive]
      by_cases hut : u = t
      · left
        rw [outlook,hasLast_append,atHand_of_some hworking,if_pos hut,
          (how.conclusive request).hasLast,Bool.or_true]
      · rw [outlook_take how.answer (by simpa [hrequested] using hut),hafter]
        rw [hrequested] at hserves
        exact hserves.imp_right fun h => h.imp_left fun hmem =>
          (List.mem_cons.mp hmem).resolve_left (Ne.symm hut)

/-- A run that is not about a pending task keeps it served, unless it starts the worker. -/
theorem Sound.serves_run (hs : w.Sound next) {xs : List (Event ρ μ)}
    (hxs : ∀ x ∈ xs, (∀ u, ¬ x.Brings u) ∧ ¬ x.Starts ∧ ¬ x.Touches t)
    (ht : (w.run xs).registered t = true) (hserves : w.Serves t) : (w.run xs).Serves t := by
  induction xs generalizing w with
  | nil => exact hserves
  | cons x xs ih =>
    obtain ⟨hbrings,hstarts,htouches⟩ := hxs x List.mem_cons_self
    have hrest : ∀ y ∈ xs, (∀ u, ¬ y.Brings u) ∧ ¬ y.Starts ∧ ¬ y.Touches t :=
      fun y hy => hxs y (List.mem_cons_of_mem x hy)
    have hrun : ((w.apply x).run xs).registered t = true := ht
    have hnow : (w.apply x).registered t = true :=
      registered_of_run hrun fun y hy => (hrest y hy).1 t
    exact ih (hs.apply hbrings) hrest ht (hs.serves_apply hbrings hstarts htouches hnow hserves)

/-- To read a message of a task that is not the last one keeps it served. -/
theorem Sound.serves_receive (hs : w.Sound next)
    (hlast : hasLast (w.waiting t).head?.toList = false) :
    (w.receive t).2.Serves t ↔ w.Serves t := by
  have hwaiting : hasLast (w.waiting t) = hasLast (w.waiting t).tail := by
    rcases hw : w.waiting t with _ | ⟨m,rest⟩
    · rfl
    · have hm : Mail.isLast m = false := by simpa [hw] using hlast
      rw [hasLast_cons,hm,Bool.false_or]
      rfl
  rw [hs.serves_iff,(hs.receive t).serves_iff,outlook,outlook,waiting_receive_self,
    atHand_receive,hasLast_append,hasLast_append,hwaiting,requested_receive,isAlive_receive]

/-- A request for the next task keeps another task served just if the worker runs or the last
message of that task is in its buffer. -/
theorem Sound.serves_send_iff (hs : w.Sound next) (hne : next ≠ t) (request : ρ)
    (hserves : w.Serves t) : (w.send next request).Serves t ↔
      w.isAlive = true ∨ ∃ b, w.buffer? t = some b ∧ hasLast b = true := by
  rw [(hs.send request).serves_iff,hs.outlook_send,hs.requested_send,isAlive_send]
  cases ha : w.isAlive with
  | true =>
    rw [hs.serves_iff,ha] at hserves
    rw [ensureStarted_of_alive w ha]
    have hlater : hasLast (w.outlook t) = true ∨ t ∈ w.requested := by simpa using hserves
    simpa [Ne.symm hne] using hlater
  | false =>
    -- the new start takes both queues away, so that only the buffer is left
    rw [ensureStarted_of_ended w ha,outlook_of_none rfl,waiting_start]
    have hnone : w.start.requested = [] := rfl
    have hbuffer : w.buffer? t = bufferOf t w.pending := rfl
    rw [hnone,hbuffer]
    cases bufferOf t w.pending <;> simp [Ne.symm hne]

/-- What is done through an open handle keeps its task served, unless it ends the handle. -/
theorem Handle.serves_act {h : Handle μ} (hs : w.Sound next) (d : Handle.Deed)
    (he : (h.act w d).2.1.isEnded = false) (hserves : w.Serves h.task) :
    (h.act w d).2.2.Serves h.task := by
  cases d with
  | cancel =>
    have hnot : ¬ (h.kind = .verify ∧ h.done = false) := by
      rintro ⟨hkind,-⟩
      simp [Handle.act,Handle.muted,Handle.isEnded,hkind] at he
    simp only [Handle.act,if_neg hnot]
    exact hserves
  | read =>
    simp only [Handle.act] at he ⊢
    rcases h.read_cases w with ⟨-,hread⟩ | ⟨-,m,_,-,-,hread⟩ | ⟨-,hlast,_,hread,-⟩
    · rw [hread]
      exact hserves
    · rw [hread,h.isEnded_finish] at he
      cases he
    · rw [hread]
      exact (hs.serves_receive hlast).mpr hserves
  | report =>
    simp only [Handle.act] at he ⊢
    split at he
    · next hc =>
      rw [if_pos hc]
      exact hserves
    · rw [h.isEnded_finish] at he
      cases he

end DrawFormula.Worker
