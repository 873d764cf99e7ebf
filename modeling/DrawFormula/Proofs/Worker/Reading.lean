import DrawFormula.Proofs.Worker.Steps
import DrawFormula.Worker.Supervisor

/-! # Reading through a handle

A handle passes on what waits for its task up to the first last message and then nothing more; the
handle of a cancelled search passes on that last message only. If none waits, the reading goes on
later as long as the worker runs, and ends with a failure if it does not.
-/
namespace DrawFormula.Worker
open Mail
variable {ρ μ : Type}

theorem Handle.isEnded_finish (h : Handle μ) (m : μ) : (h.finish m).isEnded = true := by
  simp [finish,isEnded]

variable [Mail μ]

/-- The message that was read, if it is passed on. -/
def Reading.passed : Reading μ → List μ
  | .message m => [m]
  | _ => []

/-- The messages up to the first last one. -/
def untilLast : List μ → List μ
  | [] => []
  | m :: rest => if Mail.isLast m then [m] else m :: untilLast rest

theorem untilLast_of_orderly {ms : List μ} (h : Orderly ms) : untilLast ms = ms := by
  induction ms with
  | nil => rfl
  | cons m rest ih =>
    rw [untilLast]
    split
    · next hm =>
      have hrest : rest = [] := Orderly.eq_nil_of_cons h hm
      rw [hrest]
    · rw [ih (List.Pairwise.of_cons h)]

namespace Handle
variable (h : Handle μ) (w : Worker ρ μ)

/-- What a handle passes on of the messages for its task: of a cancelled one only the last. -/
def audible (ms : List μ) : List μ := if h.cancelled then ms.filter Mail.isLast else ms

theorem audible_append (ms more : List μ) :
    h.audible (ms ++ more) = h.audible ms ++ h.audible more := by
  unfold audible
  split
  · exact List.filter_append ms more
  · rfl

theorem hasLast_audible (ms : List μ) : hasLast (h.audible ms) = hasLast ms := by
  unfold audible
  split
  · simp [hasLast]
  · rfl

theorem audible_last {m : μ} (hm : Mail.isLast m = true) : h.audible [m] = [m] := by
  simp [audible,hm]

theorem audible_cons (ms : List μ) {m : μ} (hm : Mail.isLast m = false) :
    h.audible (m :: ms) = if h.cancelled then h.audible ms else m :: h.audible ms := by
  unfold audible
  split
  · exact List.filter_cons_of_neg (by simp [hm])
  · rfl

/-! ## One message -/

theorem read_of_ended (he : h.isEnded = true) : h.read w = (.ended,h,w) := if_pos he

variable {h}

theorem read_of_nil (he : h.isEnded = false) (hw : w.waiting h.task = []) :
    h.read w = (.nothing,h,(w.receive h.task).2) := by
  have hfst : (w.receive h.task).1 = none := by rw [receive_fst,hw]; rfl
  unfold read
  rw [he]
  split
  · next hend => cases hend
  · split
    · next v hv => rw [hv]
    · next m v hv =>
      rw [hv] at hfst
      cases hfst

theorem read_of_cons (he : h.isEnded = false) {m : μ} {rest : List μ}
    (hw : w.waiting h.task = m :: rest) : h.read w =
      if Mail.isLast m then (.message m,h.finish m,(w.receive h.task).2.forget h.task)
      else if h.cancelled then (.muted,h,(w.receive h.task).2)
      else (.message m,h,(w.receive h.task).2) := by
  have hfst : (w.receive h.task).1 = some m := by rw [receive_fst,hw]; rfl
  unfold read
  rw [he]
  split
  · next hend => cases hend
  · split
    · next v hv =>
      rw [hv] at hfst
      cases hfst
    · next m' v hv =>
      rw [hv] at hfst ⊢
      cases hfst
      rfl

/-- An ended handle reads nothing. Another one takes the first message that waits for its task, if
there is one, and passes it on as far as it is audible; if this is a last message, the handle is
done and the task forgotten. -/
theorem read_cases :
    h.isEnded = true ∧ h.read w = (.ended,h,w) ∨
    h.isEnded = false ∧ (∃ m rest, w.waiting h.task = m :: rest ∧ Mail.isLast m = true ∧
      h.read w = (.message m,h.finish m,(w.receive h.task).2.forget h.task)) ∨
    h.isEnded = false ∧ hasLast (w.waiting h.task).head?.toList = false ∧
      ∃ reading, h.read w = (reading,h,(w.receive h.task).2) ∧
        reading.passed = h.audible (w.waiting h.task).head?.toList := by
  cases he : h.isEnded with
  | true => exact .inl ⟨rfl,read_of_ended h w he⟩
  | false =>
    rcases hw : w.waiting h.task with _ | ⟨m,rest⟩
    · refine .inr (.inr ⟨rfl,rfl,.nothing,read_of_nil w he hw,?_⟩)
      simp [Reading.passed,audible]
    · have hread := read_of_cons w he hw
      cases hm : Mail.isLast m with
      | true => exact .inr (.inl ⟨rfl,m,rest,rfl,hm,by rw [hread,if_pos hm]⟩)
      | false =>
        rw [hm,if_neg Bool.false_ne_true] at hread
        cases hc : h.cancelled with
        | true =>
          rw [hc,if_pos rfl] at hread
          exact .inr (.inr ⟨rfl,by simp [hm],.muted,hread,by simp [Reading.passed,audible,hc,hm]⟩)
        | false =>
          rw [hc,if_neg Bool.false_ne_true] at hread
          exact .inr (.inr ⟨rfl,by simp [hm],.message m,hread,by simp [Reading.passed,audible,hc]⟩)

/-! ## All messages -/

/-- Reading often enough passes on what waits up to the first last message, and ends just if there
is one. -/
theorem drainBy_spec (fuel : ℕ) (he : h.isEnded = false)
    (hfuel : (w.waiting h.task).length < fuel) :
    ∃ h' v, drainBy fuel h w =
        (h.audible (untilLast (w.waiting h.task)),hasLast (w.waiting h.task),h',v) ∧
      v.name = w.name ∧ v.life = w.life := by
  induction fuel generalizing w with
  | zero => omega
  | succ fuel ih =>
    rcases hw : w.waiting h.task with _ | ⟨m,rest⟩
    · refine ⟨h,(w.receive h.task).2,?_,by simp,by simp⟩
      rw [drainBy,read_of_nil w he hw]
      simp [untilLast,audible]
    · have hrest : (w.receive h.task).2.waiting h.task = rest := by
        rw [waiting_receive_self,hw]
        rfl
      have hless : ((w.receive h.task).2.waiting h.task).length < fuel := by
        rw [hw,List.length_cons] at hfuel
        rw [hrest]
        omega
      obtain ⟨h',v,hdrain,hname,hlife⟩ := ih (w.receive h.task).2 hless
      rw [name_receive] at hname
      rw [life_receive] at hlife
      rw [hrest] at hdrain
      cases hm : Mail.isLast m with
      | true =>
        -- after the last message the handle has ended and passes on nothing
        have hended := h.isEnded_finish m
        refine ⟨h.finish m,(w.receive h.task).2.forget h.task,?_,w.name_receive _,
          w.life_receive _⟩
        have hdone (k : ℕ) (v : Worker ρ μ) :
            drainBy k (h.finish m) v = ([],true,h.finish m,v) := by
          cases k with
          | zero => rw [drainBy,hended]
          | succ k => rw [drainBy,read_of_ended _ v hended]
        rw [drainBy,read_of_cons w he hw,if_pos hm]
        simp only [hdone]
        rw [untilLast,if_pos hm,audible_last _ hm,hasLast_cons,hm,Bool.true_or]
      | false =>
        refine ⟨h',v,?_,hname,hlife⟩
        rw [drainBy,read_of_cons w he hw,hm]
        simp only [Bool.false_eq_true,if_false]
        rw [untilLast,hm,if_neg Bool.false_ne_true,audible_cons _ _ hm,hasLast_cons,hm,
          Bool.false_or]
        cases hc : h.cancelled with
        | true => simpa using hdrain
        | false => simp [hdrain]

/-- All that a handle passes on without waiting: what waits up to the first last message, and a
failure if there is none and the worker does not run. -/
theorem messages_spec (he : h.isEnded = false) :
    (h.messages w).1 = h.audible (untilLast (w.waiting h.task)) ++
        (if hasLast (w.waiting h.task) || w.isAlive then [] else [Mail.failure w.exitReason]) ∧
      (h.messages w).2.1 = (hasLast (w.waiting h.task) || !w.isAlive) := by
  have hfuel : (w.waiting h.task).length < w.backlog + 2 :=
    Nat.lt_add_right 1 (Nat.lt_succ_of_le (length_waiting_le_backlog w h.task))
  obtain ⟨h',v,hdrain,hname,hlife⟩ := drainBy_spec w (w.backlog + 2) he hfuel
  have halive : v.isAlive = w.isAlive := by unfold isAlive; rw [hlife]
  have hreason : v.exitReason = w.exitReason := by unfold exitReason; rw [hname]
  unfold messages drain
  rw [hdrain]
  cases hlast : hasLast (w.waiting h.task) with
  | true => simp
  | false =>
    cases ha : w.isAlive with
    | true => simp [halive,ha]
    | false => simp [halive,ha,hreason]

end Handle

end DrawFormula.Worker
