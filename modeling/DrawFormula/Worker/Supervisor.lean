import DrawFormula.Request.Basic
import DrawFormula.Worker.Basic

/-! # Supervisors

A supervisor owns a worker for backtests and one for searches and hands out a handle for each
task.  A cancelled task for backtests ends at once, because its worker is started anew; a
cancelled search goes on unheard and only its last message is delivered.
-/
namespace DrawFormula.Worker

/-- The handle of a task. -/
structure Handle (μ : Type) where
  task : TaskId
  kind : RequestKind
  cancelled : Bool
  done : Bool
  /-- The last message, once it was read. -/
  result : Option μ

/-- What is read through a handle. -/
inductive Reading (μ : Type) where
  /-- There will be no more messages. -/
  | ended
  /-- There is no message yet. -/
  | nothing
  /-- A message of a cancelled search is passed over. -/
  | muted
  | message (m : μ)

variable {ρ μ : Type} [Mail μ]

namespace Handle

/-- The handle of a new task. -/
def new (task : TaskId) (kind : RequestKind) : Handle μ := ⟨task, kind, false, false, none⟩

/-- Whether there will be no more messages. -/
def isEnded (h : Handle μ) : Bool := h.done || (h.cancelled && h.kind = .verify)

/-- The handle when the last message is read. -/
def finish (h : Handle μ) (m : μ) : Handle μ := { h with done := true, result := some m }

/-- Reads the next message without waiting for it. -/
def read (h : Handle μ) (w : Worker ρ μ) : Reading μ × Handle μ × Worker ρ μ :=
  if h.isEnded then (.ended, h, w)
  else match w.receive h.task with
    | (none, w) => (.nothing, h, w)
    | (some m, w) =>
      if Mail.isLast m then (.message m, h.finish m, w.forget h.task)
      else if h.cancelled then (.muted, h, w)
      else (.message m, h, w)

/-- Reads up to `fuel` times; the answer says whether the messages have ended. -/
def drainBy : Nat → Handle μ → Worker ρ μ → List μ × Bool × Handle μ × Worker ρ μ
  | 0, h, w => ([], h.isEnded, h, w)
  | fuel + 1, h, w =>
    match h.read w with
    | (.ended, h, w) => ([], true, h, w)
    | (.nothing, h, w) => ([], false, h, w)
    | (.muted, h, w) => drainBy fuel h w
    | (.message m, h, w) =>
      let (rest, ended, h, w) := drainBy fuel h w
      (m :: rest, ended, h, w)

/-- All messages that are there, and whether there will be no more. -/
def drain (h : Handle μ) (w : Worker ρ μ) : List μ × Bool × Handle μ × Worker ρ μ :=
  drainBy (w.backlog + 2) h w

/-- All messages up to the end, if it comes without waiting: when no message is left of a worker
that does not run, the last one is a failure. -/
def messages (h : Handle μ) (w : Worker ρ μ) : List μ × Bool × Handle μ × Worker ρ μ :=
  match h.drain w with
  | (ms, false, h, w) =>
    if w.isAlive then (ms, false, h, w)
    else
      let m := Mail.failure w.exitReason
      (ms ++ [m], true, h.finish m, w.forget h.task)
  | r => r

end Handle

/-- The wording when the time for a task's messages is over. -/
def timeoutText (t : TaskId) : String := s!"task {t} timed out"

/-- A supervisor. -/
structure Supervisor (ρ μ : Type) where
  verify : Worker ρ μ
  search : Worker ρ μ
  handles : List (Handle μ)
  /-- The number of the next task. -/
  nextTask : TaskId

namespace Supervisor

/-- A supervisor without tasks. -/
def new : Supervisor ρ μ :=
  ⟨.new RequestKind.verify.name, .new RequestKind.search.name, [], 1⟩

/-- The worker for a kind of request. -/
def worker (s : Supervisor ρ μ) : RequestKind → Worker ρ μ
  | .verify => s.verify
  | .search => s.search

/-- The supervisor with another worker for a kind of request. -/
def setWorker (s : Supervisor ρ μ) (kind : RequestKind) (w : Worker ρ μ) : Supervisor ρ μ :=
  match kind with
  | .verify => { s with verify := w }
  | .search => { s with search := w }

/-- The supervisor with another handle in a place. -/
def setHandle (s : Supervisor ρ μ) (i : Nat) (h : Handle μ) : Supervisor ρ μ :=
  { s with handles := s.handles.set i h }

/-- Submits a request; its task is the next one. -/
def submit (s : Supervisor ρ μ) (kind : RequestKind) (request : ρ) : Supervisor ρ μ :=
  let s := s.setWorker kind ((s.worker kind).send s.nextTask request)
  { s with handles := s.handles ++ [.new s.nextTask kind], nextTask := s.nextTask + 1 }

/-- Cancels the task of a handle. -/
def cancel (s : Supervisor ρ μ) (i : Nat) : Supervisor ρ μ :=
  match s.handles[i]? with
  | none => s
  | some h =>
    let s := s.setHandle i { h with cancelled := true }
    if h.kind = .verify && !h.done then
      s.setWorker h.kind ((s.worker h.kind).restart (some h.task))
    else s

/-- Reads all messages of a handle that are there; says whether there will be no more. -/
def drain (s : Supervisor ρ μ) (i : Nat) : List μ × Bool × Supervisor ρ μ :=
  match s.handles[i]? with
  | none => ([], true, s)
  | some h =>
    let (ms, ended, h', w) := h.drain (s.worker h.kind)
    (ms, ended, (s.setHandle i h').setWorker h.kind w)

/-- Stops both workers. -/
def shutdown (s : Supervisor ρ μ) : Supervisor ρ μ :=
  { s with verify := s.verify.stop, search := s.search.stop }

end Supervisor

end DrawFormula.Worker
