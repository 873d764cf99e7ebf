import DrawFormula.Worker.Basic
import Mathlib.Data.List.Infix
import Mathlib.Data.Nat.Notation

/-! # What waits for a task

The messages that wait for a task are those in its buffer and, behind them, those for it on the
queue. Seen task by task, a worker is a row of first-in first-out queues: whoever reads for a task
takes the first message that waits for it, and leaves what waits for every other pending task as it
was, although messages move from the queue to the buffers.
-/
namespace DrawFormula.Worker
variable {ρ μ : Type}

/-! ## Messages by task -/

/-- The messages for a task. -/
def messagesFor (t : TaskId) (sent : List (TaskId × μ)) : List μ :=
  sent.filterMap fun r => if r.1 = t then some r.2 else none

@[simp] theorem messagesFor_nil (t : TaskId) : messagesFor t ([] : List (TaskId × μ)) = [] := rfl

theorem messagesFor_cons (t u : TaskId) (m : μ) (sent : List (TaskId × μ)) :
    messagesFor t ((u,m) :: sent) =
      if u = t then m :: messagesFor t sent else messagesFor t sent := by
  by_cases h : u = t <;> simp [messagesFor,h]

@[simp] theorem messagesFor_append (t : TaskId) (sent more : List (TaskId × μ)) :
    messagesFor t (sent ++ more) = messagesFor t sent ++ messagesFor t more :=
  List.filterMap_append

theorem messagesFor_eq_nil_iff {t : TaskId} {sent : List (TaskId × μ)} :
    messagesFor t sent = [] ↔ ∀ r ∈ sent, r.1 ≠ t := by
  rw [messagesFor,List.filterMap_eq_nil_iff]
  refine forall₂_congr fun r _ => ?_
  by_cases h : r.1 = t <;> simp [h]

/-! ## Buffers by task -/

/-- The buffer of a task among the buffers of the pending tasks. -/
def bufferOf (t : TaskId) (pending : List (TaskId × List μ)) : Option (List μ) :=
  (pending.find? fun e => e.1 = t).map (·.2)

theorem bufferOf_cons (t u : TaskId) (b : List μ) (rest : List (TaskId × List μ)) :
    bufferOf t ((u,b) :: rest) = if u = t then some b else bufferOf t rest := by
  by_cases h : u = t <;> simp [bufferOf,h]

theorem bufferOf_setBuffer (t u : TaskId) (b : List μ) (pending : List (TaskId × List μ)) :
    bufferOf u (setBuffer t b pending) = if t = u then some b else bufferOf u pending := by
  induction pending with
  | nil => exact bufferOf_cons u t b []
  | cons e rest ih =>
    obtain ⟨v,old⟩ := e
    by_cases hv : v = t
    · subst hv
      simp only [setBuffer,if_true,bufferOf_cons]
      split <;> rfl
    · simp only [setBuffer,if_neg hv,bufferOf_cons,ih]
      split
      · next hu => rw [if_neg (hu ▸ Ne.symm hv)]
      · rfl

theorem bufferOf_route (t u : TaskId) (m : μ) (pending : List (TaskId × List μ)) :
    bufferOf u (route t m pending) =
      (bufferOf u pending).map (· ++ messagesFor u [(t,m)]) := by
  rw [messagesFor_cons,messagesFor_nil]
  induction pending with
  | nil => rfl
  | cons e rest ih =>
    obtain ⟨v,b⟩ := e
    by_cases hv : v = t
    · subst hv
      by_cases hu : v = u
      · simp [route,bufferOf_cons,hu]
      · simp [route,bufferOf_cons,hu]
    · simp only [route,if_neg hv,bufferOf_cons,ih]
      split
      · next hu => simp [show t ≠ u from fun h => hv (hu.trans h.symm)]
      · rfl

theorem bufferOf_routeAll (u : TaskId) (pending : List (TaskId × List μ))
    (sent : List (TaskId × μ)) :
    bufferOf u (routeAll pending sent) = (bufferOf u pending).map (· ++ messagesFor u sent) := by
  induction sent generalizing pending with
  | nil => simp [routeAll]
  | cons r rest ih =>
    obtain ⟨t,m⟩ := r
    have hrest := ih (route t m pending)
    rw [bufferOf_route,Option.map_map] at hrest
    refine hrest.trans (congrArg (Option.map · (bufferOf u pending)) (funext fun b => ?_))
    rw [Function.comp_apply,List.append_assoc,← messagesFor_append,List.singleton_append]

theorem bufferOf_filter (keep : TaskId → Bool) (u : TaskId) (pending : List (TaskId × List μ)) :
    bufferOf u (pending.filter fun e => keep e.1) =
      if keep u then bufferOf u pending else none := by
  induction pending with
  | nil => simp [bufferOf]
  | cons e rest ih =>
    obtain ⟨v,b⟩ := e
    by_cases hu : v = u
    · subst hu
      by_cases hk : keep v = true
      · simp [hk,bufferOf_cons]
      · simpa [hk] using ih
    · by_cases hk : keep v = true
      · simp only [List.filter_cons,hk,if_true,bufferOf_cons,if_neg hu,ih]
      · simp only [List.filter_cons,hk,Bool.false_eq_true,if_false,bufferOf_cons,if_neg hu,ih]

theorem bufferOf_map (f : List μ → List μ) (u : TaskId) (pending : List (TaskId × List μ)) :
    bufferOf u (pending.map fun (t,b) => (t,f b)) = (bufferOf u pending).map f := by
  induction pending with
  | nil => rfl
  | cons e rest ih =>
    obtain ⟨v,b⟩ := e
    rw [List.map_cons,bufferOf_cons,bufferOf_cons,ih]
    split <;> rfl

/-! ## Taking from the queue -/

theorem takeFor_fst (t : TaskId) (pending : List (TaskId × List μ)) (sent : List (TaskId × μ)) :
    (takeFor t pending sent).1 = (messagesFor t sent).head? := by
  induction sent generalizing pending with
  | nil => rfl
  | cons r rest ih =>
    obtain ⟨u,m⟩ := r
    by_cases hu : u = t
    · simp [takeFor,messagesFor_cons,hu]
    · simp [takeFor,messagesFor_cons,hu,ih]

theorem messagesFor_takeFor (t : TaskId) (pending : List (TaskId × List μ))
    (sent : List (TaskId × μ)) :
    messagesFor t (takeFor t pending sent).2.2 = (messagesFor t sent).tail := by
  induction sent generalizing pending with
  | nil => rfl
  | cons r rest ih =>
    obtain ⟨u,m⟩ := r
    by_cases hu : u = t
    · simp [takeFor,messagesFor_cons,hu]
    · simp [takeFor,messagesFor_cons,hu,ih]

/-- Messages for other tasks go from the queue to their buffers in order; those for the task at
hand do not. -/
theorem exists_takeFor (t : TaskId) (pending : List (TaskId × List μ))
    (sent : List (TaskId × μ)) :
    ∃ parked, (∀ u, u ≠ t → messagesFor u sent =
        messagesFor u parked ++ messagesFor u (takeFor t pending sent).2.2) ∧
      (∀ r ∈ parked, r.1 ≠ t) ∧ (takeFor t pending sent).2.1 = routeAll pending parked ∧
      (takeFor t pending sent).2.2 <:+ sent := by
  -- the parked messages are those in front of the first one for the task
  induction sent generalizing pending with
  | nil => exact ⟨[],fun _ _ => rfl,fun _ h => absurd h List.not_mem_nil,rfl,List.suffix_rfl⟩
  | cons r rest ih =>
    obtain ⟨v,m⟩ := r
    by_cases hv : v = t
    · subst hv
      refine ⟨[],fun u hu => ?_,fun _ h => absurd h List.not_mem_nil,?_,?_⟩
      · simp [takeFor,messagesFor_cons,Ne.symm hu]
      · simp [takeFor,routeAll]
      · simp [takeFor]
    · obtain ⟨parked,hsame,hother,hrouted,hsuffix⟩ := ih (route v m pending)
      simp only [takeFor,if_neg hv]
      refine ⟨(v,m) :: parked,fun u hu => ?_,?_,hrouted,
        hsuffix.trans (List.suffix_cons (v,m) rest)⟩
      · rw [messagesFor_cons,messagesFor_cons,hsame u hu]
        split <;> rfl
      · intro r hr
        rcases List.mem_cons.mp hr with rfl | hr
        · exact hv
        · exact hother r hr

/-! ## Waiting messages -/

/-- The requests in the queue. -/
def requests (w : Worker ρ μ) : List (TaskId × ρ) := (w.queues.map Queues.requests).getD []

/-- The messages on the queue. -/
def responses (w : Worker ρ μ) : List (TaskId × μ) := (w.queues.map Queues.responses).getD []

/-- Whether a task is pending. -/
def registered (w : Worker ρ μ) (t : TaskId) : Bool := (w.buffer? t).isSome

/-- The messages that were sent for a task and not yet read, the oldest first. -/
def waiting (w : Worker ρ μ) (t : TaskId) : List μ :=
  (w.buffer? t).getD [] ++ messagesFor t w.responses

section Views
variable (w : Worker ρ μ) (t u : TaskId)

theorem registered_eq : w.registered t = (bufferOf t w.pending).isSome := rfl

theorem waiting_eq :
    w.waiting t = (bufferOf t w.pending).getD [] ++ messagesFor t w.responses := rfl

theorem length_waiting_le_backlog : (w.waiting t).length ≤ w.backlog := by
  have hbuffer (pending : List (TaskId × List μ)) :
      ((bufferOf t pending).getD []).length ≤ (pending.flatMap (·.2)).length := by
    induction pending with
    | nil => exact Nat.le_refl 0
    | cons e rest ih =>
      rw [bufferOf_cons,List.flatMap_cons,List.length_append]
      split
      · exact Nat.le_add_right _ _
      · exact Nat.le_trans ih (Nat.le_add_left _ _)
  have hsent : (messagesFor t w.responses).length ≤
      (w.queues.map fun q => q.responses.length).getD 0 := by
    cases hq : w.queues with
    | none => simp [responses,hq]
    | some q =>
      have hq' : w.responses = q.responses := by simp [responses,hq]
      rw [hq']
      exact List.length_filterMap_le _ q.responses
  rw [waiting_eq,List.length_append]
  exact Nat.add_le_add (hbuffer w.pending) hsent

/-! ## Reading -/

/-- The worker with other buffers and with other messages on its queue. -/
def withMessages (pending : List (TaskId × List μ)) (sent : List (TaskId × μ)) : Worker ρ μ :=
  { w with pending := pending, queues := w.queues.map fun q => { q with responses := sent } }

theorem responses_withMessages (pending : List (TaskId × List μ)) {sent : List (TaskId × μ)}
    (h : sent <:+ w.responses) : (w.withMessages pending sent).responses = sent := by
  cases hq : w.queues with
  | none =>
    have hnone : sent = [] := by simpa [responses,hq] using h
    simp [responses,withMessages,hq,hnone]
  | some q => simp [responses,withMessages,hq]

/-- To read is to take the first message of the buffer or, from an empty buffer, the first one on
the queue. -/
theorem receive_cases :
    (∃ m rest, w.buffer? t = some (m :: rest) ∧
      w.receive t = (some m,w.withMessages (setBuffer t rest w.pending) w.responses)) ∨
    (w.buffer? t).getD [] = [] ∧ w.receive t = ((takeFor t w.pending w.responses).1,
      w.withMessages (takeFor t w.pending w.responses).2.1
        (takeFor t w.pending w.responses).2.2) := by
  have hunread : (∀ m rest, w.buffer? t ≠ some (m :: rest)) →
      w.receive t = ((takeFor t w.pending w.responses).1,
        w.withMessages (takeFor t w.pending w.responses).2.1
          (takeFor t w.pending w.responses).2.2) := by
    intro h
    unfold receive
    split
    · next m rest hb => exact absurd hb (h m rest)
    · split
      · next hq =>
        obtain ⟨name,life,queues,working,pending,starts⟩ := w
        obtain rfl : queues = none := hq
        rfl
      · next q hq => simp [withMessages,responses,hq]
  rcases hb : w.buffer? t with _ | _ | ⟨m,rest⟩
  · exact .inr ⟨rfl,hunread (by simp [hb])⟩
  · exact .inr ⟨rfl,hunread (by simp [hb])⟩
  · refine .inl ⟨m,rest,rfl,?_⟩
    unfold receive
    rw [hb]
    obtain ⟨name,life,queues,working,pending,starts⟩ := w
    cases queues <;> rfl

/-- To read moves messages and changes nothing else. -/
theorem exists_receive : ∃ pending sent, (w.receive t).2 = w.withMessages pending sent := by
  rcases w.receive_cases t with ⟨m,rest,-,h⟩ | ⟨-,h⟩
  · exact ⟨_,_,congrArg Prod.snd h⟩
  · exact ⟨_,_,congrArg Prod.snd h⟩

@[simp] theorem name_receive : (w.receive t).2.name = w.name := by
  obtain ⟨_,_,h⟩ := w.exists_receive t
  rw [h]
  rfl

@[simp] theorem life_receive : (w.receive t).2.life = w.life := by
  obtain ⟨_,_,h⟩ := w.exists_receive t
  rw [h]
  rfl

@[simp] theorem isAlive_receive : (w.receive t).2.isAlive = w.isAlive := by
  rw [isAlive,isAlive,life_receive]

@[simp] theorem working_receive : (w.receive t).2.working = w.working := by
  obtain ⟨_,_,h⟩ := w.exists_receive t
  rw [h]
  rfl

@[simp] theorem starts_receive : (w.receive t).2.starts = w.starts := by
  obtain ⟨_,_,h⟩ := w.exists_receive t
  rw [h]
  rfl

@[simp] theorem isSome_queues_receive : (w.receive t).2.queues.isSome = w.queues.isSome := by
  obtain ⟨_,_,h⟩ := w.exists_receive t
  rw [h]
  exact Option.isSome_map

@[simp] theorem requests_receive : (w.receive t).2.requests = w.requests := by
  obtain ⟨_,_,h⟩ := w.exists_receive t
  rw [h,requests,requests,withMessages,Option.map_map]
  rfl

/-- What the queue holds after reading are the last messages that it held. -/
theorem responses_receive : (w.receive t).2.responses <:+ w.responses := by
  rcases w.receive_cases t with ⟨m,rest,-,h⟩ | ⟨-,h⟩
  · rw [h,responses_withMessages w _ List.suffix_rfl]
  · obtain ⟨-,-,-,-,hsuffix⟩ := exists_takeFor t w.pending w.responses
    rwa [h,responses_withMessages w _ hsuffix]

@[simp] theorem registered_receive : (w.receive t).2.registered u = w.registered u := by
  rcases w.receive_cases t with ⟨m,rest,hb,h⟩ | ⟨-,h⟩
  · have hsome : bufferOf t w.pending = some (m :: rest) := hb
    simp only [h,registered_eq,withMessages,bufferOf_setBuffer]
    split
    · next htu => rw [← htu,hsome,Option.isSome_some,Option.isSome_some]
    · rfl
  · obtain ⟨parked,-,-,hrouted,-⟩ := exists_takeFor t w.pending w.responses
    simp only [h,registered_eq,withMessages,hrouted,bufferOf_routeAll,Option.isSome_map]

/-- Whoever reads for a task gets the first message that waits for it. -/
theorem receive_fst : (w.receive t).1 = (w.waiting t).head? := by
  rcases w.receive_cases t with ⟨m,rest,hb,h⟩ | ⟨hb,h⟩
  · rw [h,waiting,hb]
    rfl
  · rw [h,waiting,hb,List.nil_append]
    exact takeFor_fst t w.pending w.responses

theorem waiting_receive_self : (w.receive t).2.waiting t = (w.waiting t).tail := by
  rcases w.receive_cases t with ⟨m,rest,hb,h⟩ | ⟨hb,h⟩
  · rw [h,waiting_eq,responses_withMessages w _ List.suffix_rfl,waiting,hb]
    simp [withMessages,bufferOf_setBuffer]
  · obtain ⟨parked,-,hother,hrouted,hsuffix⟩ := exists_takeFor t w.pending w.responses
    have hempty : (bufferOf t w.pending).getD [] = [] := hb
    have hbuffer : (bufferOf t (routeAll w.pending parked)).getD [] = [] := by
      rw [bufferOf_routeAll,messagesFor_eq_nil_iff.mpr hother]
      simpa using hempty
    rw [h,waiting_eq,waiting_eq,responses_withMessages w _ hsuffix,hempty,List.nil_append,
      ← messagesFor_takeFor t w.pending,withMessages,hrouted,hbuffer,List.nil_append]

variable {t u}

/-- To read for one task leaves what waits for another pending task as it is. -/
theorem waiting_receive_of_ne (hne : u ≠ t) (hu : w.registered u = true) :
    (w.receive t).2.waiting u = w.waiting u := by
  rcases w.receive_cases t with ⟨m,rest,-,h⟩ | ⟨-,h⟩
  · rw [h,waiting_eq,waiting_eq,responses_withMessages w _ List.suffix_rfl,withMessages,
      bufferOf_setBuffer,if_neg hne.symm]
  · obtain ⟨parked,hsame,-,hrouted,hsuffix⟩ := exists_takeFor t w.pending w.responses
    obtain ⟨b,hb⟩ := Option.isSome_iff_exists.mp hu
    have hbuffer : bufferOf u w.pending = some b := hb
    rw [h,waiting_eq,waiting_eq,responses_withMessages w _ hsuffix,withMessages,hrouted,
      bufferOf_routeAll,hbuffer,hsame u hne,Option.map_some,Option.getD_some,Option.getD_some,
      List.append_assoc]

theorem waiting_of_unregistered (hu : w.registered u = false) :
    w.waiting u = messagesFor u w.responses := by
  have hb : w.buffer? u = none := by simpa [registered] using hu
  rw [waiting,hb]
  rfl

variable (t u)

/-- To read brings no message back and changes no order. -/
theorem waiting_receive_suffix : (w.receive t).2.waiting u <:+ w.waiting u := by
  by_cases hne : u = t
  · subst hne
    rw [waiting_receive_self]
    exact List.tail_suffix _
  · cases hu : w.registered u with
    | true =>
      rw [waiting_receive_of_ne w hne hu]
    | false =>
      rw [waiting_of_unregistered w hu,
        waiting_of_unregistered _ ((w.registered_receive t u).trans hu)]
      exact (w.responses_receive t).filterMap _

end Views

end DrawFormula.Worker
