import DrawFormula.Proofs.Worker.Steps

/-! # What is still to come for a task

For each task there is what waits for it and what the worker has yet to send for it, if it is at
hand. When tasks are sent under new numbers only, this holds at most one last message, behind all
others; a task whose request is in the queue was sent once and nothing is to come for it before the
request is taken; and the task at hand has its last message before it.
-/
namespace DrawFormula.Worker
open Mail
variable {ρ μ : Type}

/-- What the worker has yet to send for a task. -/
def atHand (w : Worker ρ μ) (t : TaskId) : List μ :=
  match w.working with
  | some (u,ms) => if u = t then ms else []
  | none => []

/-- What is to be read for a task from now on. -/
def outlook (w : Worker ρ μ) (t : TaskId) : List μ := w.waiting t ++ w.atHand t

/-- The tasks whose requests are in the queue. -/
def requested (w : Worker ρ μ) : List TaskId := w.requests.map Prod.fst

theorem atHand_of_none {w : Worker ρ μ} (h : w.working = none) (t : TaskId) :
    w.atHand t = [] := by
  unfold atHand
  rw [h]

theorem atHand_of_some {w : Worker ρ μ} {u : TaskId} {ms : List μ} (h : w.working = some (u,ms))
    (t : TaskId) : w.atHand t = if u = t then ms else [] := by
  unfold atHand
  rw [h]

theorem outlook_of_none {w : Worker ρ μ} (h : w.working = none) (t : TaskId) :
    w.outlook t = w.waiting t := by
  rw [outlook,atHand_of_none h,List.append_nil]

/-- To take a request changes nothing for a task whose request is not the first one. -/
theorem outlook_take {w : Worker ρ μ} {t : TaskId} (answer : ρ → List μ)
    (ht : w.requested.head? ≠ some t) : (w.take answer).outlook t = w.outlook t := by
  rcases w.take_cases answer with hsame | ⟨u,request,rest,sent,-,hw,hq,htake⟩
  · rw [hsame]
  · have hne : u ≠ t := by
      rintro rfl
      exact ht (by simp [requested,requests,hq])
    have hworking : (w.take answer).working = some (u,answer request) := by rw [htake]
    rw [outlook,waiting_take,atHand_of_some hworking,if_neg hne,List.append_nil,outlook_of_none hw]

theorem requested_take (w : Worker ρ μ) (answer : ρ → List μ) :
    (w.take answer).requested.Sublist w.requested := by
  rcases w.take_cases answer with hsame | ⟨u,request,rest,sent,-,-,hq,htake⟩
  · rw [hsame]
  · have hrequested : w.requested = u :: rest.map Prod.fst := by simp [requested,requests,hq]
    rw [htake,hrequested]
    exact List.sublist_cons_self u _

@[simp] theorem atHand_receive (w : Worker ρ μ) (t u : TaskId) :
    (w.receive t).2.atHand u = w.atHand u := by
  unfold atHand
  rw [working_receive]

@[simp] theorem requested_receive (w : Worker ρ μ) (t : TaskId) :
    (w.receive t).2.requested = w.requested := congrArg (List.map Prod.fst) (w.requests_receive t)

@[simp] theorem requested_emit (w : Worker ρ μ) : w.emit.requested = w.requested :=
  congrArg (List.map Prod.fst) w.requests_emit

variable [Mail μ]

/-- What holds of a worker whose tasks have different numbers below the next one. -/
structure Sound (w : Worker ρ μ) (next : TaskId) : Prop where
  queues_of_alive : w.isAlive = true → w.queues.isSome = true
  working_alive : ∀ x, w.working = some x → w.isAlive = true ∧ hasLast x.2 = true
  orderly : ∀ t, Orderly (w.outlook t)
  requested_nodup : w.requested.Nodup
  requested_silent : ∀ t ∈ w.requested, w.outlook t = []
  fresh : ∀ t, next ≤ t → w.registered t = false ∧ t ∉ w.requested ∧ w.outlook t = []

variable {w v : Worker ρ μ} {next : TaskId}

theorem sound_new (name : Text) (next : TaskId) : (new name : Worker ρ μ).Sound next where
  queues_of_alive := nofun
  working_alive _ := nofun
  orderly _ := orderly_nil
  requested_nodup := List.nodup_nil
  requested_silent _ _ := rfl
  fresh _ _ := ⟨rfl,List.not_mem_nil,rfl⟩

namespace Sound

theorem mono (h : w.Sound next) {next' : TaskId} (hn : next ≤ next') : w.Sound next' :=
  { h with fresh := fun t ht => h.fresh t (Nat.le_trans hn ht) }

/-- Whatever takes messages, requests and tasks away and adds none keeps a worker sound. -/
theorem of_less (h : w.Sound next) (hq : v.isAlive = true → v.queues.isSome = true)
    (hw : ∀ x, v.working = some x → v.isAlive = true ∧ hasLast x.2 = true)
    (ho : ∀ t, v.outlook t <:+: w.outlook t) (hr : v.requested.Sublist w.requested)
    (hp : ∀ t, v.registered t = true → w.registered t = true) : v.Sound next where
  queues_of_alive := hq
  working_alive := hw
  orderly t := (h.orderly t).within (ho t)
  requested_nodup := h.requested_nodup.sublist hr
  requested_silent t ht := List.infix_nil.mp (h.requested_silent t (hr.subset ht) ▸ ho t)
  fresh t ht := by
    obtain ⟨hregistered,hrequested,houtlook⟩ := h.fresh t ht
    refine ⟨Bool.eq_false_iff.mpr fun hv => ?_,fun hv => hrequested (hr.subset hv),
      List.infix_nil.mp (houtlook ▸ ho t)⟩
    rw [hp t hv] at hregistered
    cases hregistered

/-- When the last message of a task waits, its request is neither in the queue nor at hand. -/
theorem nothing_to_come (h : w.Sound next) {t : TaskId} (hlast : hasLast (w.waiting t) = true) :
    t ∉ w.requested ∧ w.atHand t = [] := by
  refine ⟨fun ht => ?_,Orderly.eq_nil_of_append (h.orderly t) hlast⟩
  have hsilent := h.requested_silent t ht
  rw [(List.append_eq_nil_iff.mp hsilent).1] at hlast
  cases hlast

/-! ## Steps of the owner -/

theorem start (h : w.Sound next) : w.start.Sound next := by
  refine h.of_less (fun _ => rfl) (fun _ => nofun) (fun t => ?_) (List.nil_sublist _)
    fun t ht => ht
  rw [outlook_of_none rfl,waiting_start,outlook,waiting_eq,List.append_assoc]
  exact (List.prefix_append _ _).isInfix

theorem ensureStarted (h : w.Sound next) : w.ensureStarted.Sound next := by
  unfold Worker.ensureStarted
  split
  · exact h
  · exact h.start

theorem outlook_register (h : w.Sound next) (t : TaskId) :
    (w.register next).outlook t = w.outlook t := by
  by_cases ht : t = next
  · subst ht
    obtain ⟨-,-,hempty⟩ := h.fresh t (Nat.le_refl t)
    have hwaiting := (List.append_eq_nil_iff.mp hempty).1
    have hsent := (List.append_eq_nil_iff.mp (w.waiting_eq t ▸ hwaiting)).2
    rw [outlook,waiting_register_self,hsent,outlook,hwaiting]
    rfl
  · rw [outlook,waiting_register_of_ne w ht]
    rfl

theorem outlook_send (h : w.Sound next) (request : ρ) (t : TaskId) :
    (w.send next request).outlook t = w.ensureStarted.outlook t := by
  have hresponses : (w.send next request).responses =
    (w.ensureStarted.register next).responses := w.responses_send next request
  rw [← h.ensureStarted.outlook_register t,outlook,outlook,waiting_eq,waiting_eq,hresponses]
  rfl

theorem requested_send (h : w.Sound next) (request : ρ) :
    (w.send next request).requested = w.ensureStarted.requested ++ [next] := by
  have hq := h.ensureStarted.queues_of_alive w.isAlive_ensureStarted
  rw [requested,requests_send w next request hq,List.map_append]
  rfl

/-- The next task may be sent. -/
theorem send (h : w.Sound next) (request : ρ) : (w.send next request).Sound (next + 1) := by
  have hs := h.ensureStarted
  obtain ⟨-,hnext,hempty⟩ := hs.fresh next (Nat.le_refl next)
  refine ⟨fun _ => ?_,hs.working_alive,fun t => ?_,?_,fun t ht => ?_,fun t ht => ?_⟩
  · exact (w.isSome_queues_send next request).trans (hs.queues_of_alive w.isAlive_ensureStarted)
  · rw [h.outlook_send]
    exact hs.orderly t
  · rw [h.requested_send]
    exact List.nodup_append.mpr ⟨hs.requested_nodup,by simp,fun t ht u hu htu => by
      rw [htu,List.mem_singleton.mp hu] at ht
      exact hnext ht⟩
  · rw [h.outlook_send]
    rw [h.requested_send] at ht
    rcases List.mem_append.mp ht with ht | ht
    · exact hs.requested_silent t ht
    · rw [List.mem_singleton.mp ht]
      exact hempty
  · obtain ⟨hregistered,hrequested,hsilent⟩ := h.ensureStarted.fresh t (Nat.le_of_succ_le ht)
    have hne : next ≠ t := Nat.ne_of_lt ht
    refine ⟨?_,?_,(h.outlook_send request t).trans hsilent⟩
    · rw [registered_ensureStarted] at hregistered
      simp [hne,hregistered]
    · rw [h.requested_send]
      simpa [Ne.symm hne] using hrequested

theorem forget (h : w.Sound next) (t : TaskId) : (w.forget t).Sound next := by
  refine h.of_less h.queues_of_alive h.working_alive (fun u => ?_) (List.Sublist.refl _)
    fun u hu => ?_
  · by_cases hu : u = t
    · subst hu
      rw [outlook,waiting_forget_self,outlook,waiting_eq,List.append_assoc]
      exact (List.suffix_append _ _).isInfix
    · rw [outlook,waiting_forget_of_ne w hu]
      exact List.infix_rfl
  · rw [registered_forget,Bool.and_eq_true] at hu
    exact hu.2

theorem receive (h : w.Sound next) (t : TaskId) : (w.receive t).2.Sound next := by
  refine h.of_less (fun ha => ?_) (fun x hx => ?_) (fun u => ?_) ?_ fun u hu => ?_
  · rw [isAlive_receive] at ha
    rw [isSome_queues_receive]
    exact h.queues_of_alive ha
  · rw [working_receive] at hx
    rw [isAlive_receive]
    exact h.working_alive x hx
  · rw [outlook,outlook,atHand_receive]
    obtain ⟨before,hbefore⟩ := w.waiting_receive_suffix t u
    exact (List.IsSuffix.isInfix ⟨before,by rw [← List.append_assoc,hbefore]⟩)
  · rw [requested_receive]
  · rwa [registered_receive] at hu

/-! ## Steps of the worker -/

theorem ended (h : w.Sound next) (halive : v.isAlive = false) (hworking : v.working = none)
    (hp : v.pending = w.pending) (hq : v.queues = w.queues) : v.Sound next := by
  refine h.of_less (fun ha => ?_) (fun x hx => ?_) (fun t => ?_) ?_ fun t ht => ?_
  · rw [halive] at ha
    cases ha
  · rw [hworking] at hx
    cases hx
  · rw [outlook_of_none hworking,outlook,waiting_eq,waiting_eq,responses,responses,hp,hq]
    exact (List.prefix_append _ _).isInfix
  · rw [requested,requested,requests,requests,hq]
  · rwa [registered_eq,hp] at ht

theorem die (h : w.Sound next) : w.die.Sound next := by
  cases ha : w.isAlive with
  | true =>
    refine h.ended w.isAlive_die ?_ w.pending_die w.queues_die
    rw [die_of_alive w ha]
  | false => rwa [die_of_ended w ha]

theorem stop (h : w.Sound next) : w.stop.Sound next := h.ended rfl rfl rfl rfl

/-- To send a message makes it wait; what is to be read stays the same. -/
theorem outlook_emit (h : w.Sound next) (t : TaskId) : w.emit.outlook t = w.outlook t := by
  rcases w.emit_cases with ⟨hsame,-⟩ | ⟨u,hw,-,-⟩ | ⟨u,m,rest,ha,hw,he,hemit⟩
  · rw [hsame]
  · cases (h.working_alive _ hw).2
  · have hworking : w.emit.working = if rest.isEmpty then none else some (u,rest) := by rw [hemit]
    have hat : w.emit.atHand t = if u = t then rest else [] := by
      cases rest with
      | nil => rw [atHand_of_none hworking]; split <;> rfl
      | cons m' rest => exact atHand_of_some hworking t
    rw [outlook,outlook,hat,atHand_of_some hw,waiting_emit w t (h.queues_of_alive ha),he,
      messagesFor_cons]
    split <;> simp

theorem emit (h : w.Sound next) : w.emit.Sound next := by
  have halive := w.isAlive_emit
  refine h.of_less (fun ha => ?_) (fun x hx => ?_) (fun t => ?_) ?_ fun t ht => ?_
  · rw [isSome_queues_emit]
    exact h.queues_of_alive (halive ▸ ha)
  · rcases w.emit_cases with ⟨hsame,-⟩ | ⟨u,hw,-,-⟩ | ⟨u,m,rest,ha,hw,-,hemit⟩
    · exact h.working_alive x (hsame ▸ hx) |>.imp_left (halive.trans ·)
    · cases (h.working_alive _ hw).2
    · have hworking : w.emit.working = if rest.isEmpty then none else some (u,rest) := by
        rw [hemit]
      refine ⟨halive.trans ha,?_⟩
      cases rest with
      | nil =>
        rw [hworking] at hx
        cases hx
      | cons m' rest =>
        -- the message sent is not the last one, since others are behind it
        have horderly := h.orderly u
        have hlast := (h.working_alive _ hw).2
        rw [outlook,atHand_of_some hw,if_pos rfl] at horderly
        rw [hworking] at hx
        obtain rfl := Option.some.inj hx
        have hm : Mail.isLast m = false := by
          refine Bool.eq_false_iff.mpr fun hm => ?_
          have hbehind := (horderly.within (List.suffix_append _ _).isInfix).eq_nil_of_cons hm
          cases hbehind
        rwa [hasLast_cons,hm,Bool.false_or] at hlast
  · rw [h.outlook_emit]
  · rw [requested_emit]
  · rwa [registered_emit] at ht

theorem take (h : w.Sound next) (how : Answering ρ μ) : (w.take how.answer).Sound next := by
  rcases w.take_cases how.answer with hsame | ⟨u,request,rest,sent,ha,hw,hq,htake⟩
  · rwa [hsame]
  · have hrequested : w.requested = u :: rest.map Prod.fst := by simp [requested,requests,hq]
    have hafter : (w.take how.answer).requested = rest.map Prod.fst := by
      rw [htake]
      rfl
    have hworking : (w.take how.answer).working = some (u,how.answer request) := by rw [htake]
    -- the request taken was the only one of its task, for which nothing was sent before
    obtain ⟨hu,hrest⟩ := List.nodup_cons.mp (hrequested ▸ h.requested_nodup)
    have hsilent : w.waiting u = [] := by
      rw [← outlook_of_none hw]
      exact h.requested_silent u (hrequested ▸ List.mem_cons_self)
    have hself : (w.take how.answer).outlook u = how.answer request := by
      rw [outlook,waiting_take,hsilent,atHand_of_some hworking,if_pos rfl]
      rfl
    have hother (t : TaskId) (ht : u ≠ t) : (w.take how.answer).outlook t = w.outlook t :=
      outlook_take how.answer (by simpa [hrequested] using ht)
    have halive : (w.take how.answer).isAlive = true := by rwa [isAlive_take]
    refine ⟨fun _ => ?_,fun x hx => ⟨halive,?_⟩,fun t => ?_,hafter ▸ hrest,fun t ht => ?_,
      fun t ht => ?_⟩
    · exact (w.isSome_queues_take how.answer).trans (h.queues_of_alive ha)
    · rw [hworking] at hx
      obtain rfl := Option.some.inj hx
      exact (how.conclusive request).hasLast
    · by_cases ht : u = t
      · rw [← ht,hself]
        exact (how.conclusive request).orderly
      · rw [hother t ht]
        exact h.orderly t
    · rw [hafter] at ht
      have hne : u ≠ t := fun hut => hu (hut ▸ ht)
      rw [hother t hne]
      exact h.requested_silent t (hrequested ▸ List.mem_cons_of_mem u ht)
    · obtain ⟨hregistered,hnot,houtlook⟩ := h.fresh t ht
      have hne : u ≠ t := fun hut => hnot (hrequested ▸ hut ▸ List.mem_cons_self)
      refine ⟨?_,fun hmem => hnot ?_,(hother t hne).trans houtlook⟩
      · rwa [registered_take]
      · rw [hafter] at hmem
        exact hrequested ▸ List.mem_cons_of_mem u hmem

theorem take_next (h : w.Sound next) (ha : w.isAlive = true) (hw : w.working = none)
    {u : TaskId} {request : ρ} {rest : List (TaskId × ρ)}
    (hr : w.requests = (u,request) :: rest) (answer : ρ → List μ) :
    (w.take answer).working = some (u,answer request) ∧ (w.take answer).requests = rest := by
  obtain ⟨⟨requests,responses⟩,hq⟩ := Option.isSome_iff_exists.mp (h.queues_of_alive ha)
  have hrequests : requests = (u,request) :: rest := by simpa [Worker.requests,hq] using hr
  subst hrequests
  rw [Worker.take,ha,hw,hq]
  exact ⟨rfl,rfl⟩

/-! ## A new start -/

theorem restart (h : w.Sound next) (dropped : Option TaskId) :
    (w.restart dropped).Sound next := by
  have hregistered (t : TaskId) (ht : (w.restart dropped).registered t = false) :
      (w.restart dropped).outlook t = [] := by
    rw [outlook_of_none rfl,waiting_of_unregistered _ ht]
    rfl
  refine ⟨fun _ => rfl,fun _ => nofun,fun t => ?_,List.nodup_nil,
    fun t ht => absurd ht List.not_mem_nil,fun t ht => ?_⟩
  · cases ht : (w.restart dropped).registered t with
    | false =>
      rw [hregistered t ht]
      exact orderly_nil
    | true =>
      obtain ⟨hd,hw⟩ : some t ≠ dropped ∧ w.registered t = true := by simpa using ht
      rw [outlook_of_none rfl,waiting_restart hw hd]
      refine (conclusive_settleBuffer _ ((h.orderly t).within ?_)).orderly
      exact (List.prefix_append _ _).isInfix
  · obtain ⟨hnone,-,-⟩ := h.fresh t ht
    have hafter : (w.restart dropped).registered t = false := by simp [hnone]
    exact ⟨hafter,List.not_mem_nil,hregistered t hafter⟩

end Sound

end DrawFormula.Worker
