import DrawFormula.Worker.Message

/-! # Workers

A worker takes requests from one queue and puts messages for their tasks on another.
Several tasks may wait for messages of one worker.  Whoever reads a message for another pending
task leaves it in that task's buffer; a message for a task that is not pending is dropped.  A new
start of the worker begins with empty queues.
-/
namespace DrawFormula

namespace Worker

/-- The number of a task. -/
abbrev TaskId := Nat

/-- The life of a worker's process. -/
inductive Life where
  /-- There is no process. -/
  | absent
  | running
  /-- The process has ended. -/
  | ended
deriving Repr, DecidableEq

/-- The queues between a worker and its owner, their oldest items first. -/
structure Queues (ρ μ : Type) where
  requests : List (TaskId × ρ)
  responses : List (TaskId × μ)

end Worker

/-- A worker with requests of type `ρ` and messages of type `μ`. -/
structure Worker (ρ μ : Type) where
  name : Text
  life : Worker.Life
  /-- The queues of the last start. -/
  queues : Option (Worker.Queues ρ μ)
  /-- The task at hand and the messages that are still to be sent for it. -/
  working : Option (Worker.TaskId × List μ)
  /-- The buffers of the pending tasks in the order of registration. -/
  pending : List (Worker.TaskId × List μ)
  /-- How often the worker was started. -/
  starts : Nat

namespace Worker

variable {ρ μ : Type}

/-- Puts a buffer for a task, in its earlier place if it has one. -/
def setBuffer (t : TaskId) (b : List μ) : List (TaskId × List μ) → List (TaskId × List μ)
  | [] => [(t, b)]
  | (u, old) :: rest => if u = t then (t, b) :: rest else (u, old) :: setBuffer t b rest

/-- Puts a message into the buffer of its task; it is dropped if the task has none. -/
def route (t : TaskId) (m : μ) : List (TaskId × List μ) → List (TaskId × List μ)
  | [] => []
  | (u, b) :: rest => if u = t then (u, b ++ [m]) :: rest else (u, b) :: route t m rest

/-- Routes messages one after the other. -/
def routeAll (pending : List (TaskId × List μ)) (responses : List (TaskId × μ)) :
    List (TaskId × List μ) :=
  responses.foldl (fun pending (t, m) => route t m pending) pending

/-- The first message for a task, with the messages before it routed; and what is left. -/
def takeFor (t : TaskId) (pending : List (TaskId × List μ)) :
    List (TaskId × μ) → Option μ × List (TaskId × List μ) × List (TaskId × μ)
  | [] => (none, pending, [])
  | (u, m) :: rest => if u = t then (some m, pending, rest) else takeFor t (route u m pending) rest

/-- A worker that was never started. -/
def new (name : Text) : Worker ρ μ := ⟨name, .absent, none, none, [], 0⟩

/-- Starts the worker with new queues. -/
def start (w : Worker ρ μ) : Worker ρ μ :=
  { w with life := .running, queues := some ⟨[], []⟩, working := none, starts := w.starts + 1 }

/-- Whether the worker runs. -/
def isAlive (w : Worker ρ μ) : Bool := w.life = .running

/-- Starts the worker unless it runs. -/
def ensureStarted (w : Worker ρ μ) : Worker ρ μ := if w.isAlive then w else w.start

/-- The buffer of a task. -/
def buffer? (w : Worker ρ μ) (t : TaskId) : Option (List μ) :=
  (w.pending.find? fun e => e.1 = t).map (·.2)

/-- Gives a task an empty buffer. -/
def register (w : Worker ρ μ) (t : TaskId) : Worker ρ μ :=
  { w with pending := setBuffer t [] w.pending }

/-- Takes a task's buffer away. -/
def forget (w : Worker ρ μ) (t : TaskId) : Worker ρ μ :=
  { w with pending := w.pending.filter fun e => e.1 ≠ t }

/-- The worker with its queues changed by `f`. -/
def onQueues (w : Worker ρ μ) (f : Queues ρ μ → Queues ρ μ) : Worker ρ μ :=
  { w with queues := w.queues.map f }

/-- Sends a request for a task. -/
def send (w : Worker ρ μ) (t : TaskId) (request : ρ) : Worker ρ μ :=
  (w.ensureStarted.register t).onQueues fun q => { q with requests := q.requests ++ [(t, request)] }

/-- Puts a message for a task on the queue. -/
def respond (w : Worker ρ μ) (t : TaskId) (m : μ) : Worker ρ μ :=
  w.onQueues fun q => { q with responses := q.responses ++ [(t, m)] }

/-- The next message for a task, if there is one. -/
def receive (w : Worker ρ μ) (t : TaskId) : Option μ × Worker ρ μ :=
  match w.buffer? t with
  | some (m :: rest) => (some m, { w with pending := setBuffer t rest w.pending })
  | _ =>
    match w.queues with
    | none => (none, w)
    | some q =>
      let (m, pending, responses) := takeFor t w.pending q.responses
      (m, { w with pending := pending, queues := some { q with responses := responses } })

/-- The worker ends by itself. -/
def die (w : Worker ρ μ) : Worker ρ μ :=
  if w.isAlive then { w with life := .ended, working := none } else w

/-- Ends the worker; its queues stay. -/
def stop (w : Worker ρ μ) : Worker ρ μ := { w with life := .absent, working := none }

/-- Adds a failure to a buffer without a last message. -/
def settleBuffer [Mail μ] (reason : Text) (b : List μ) : List μ :=
  if b.any Mail.isLast then b else b ++ [Mail.failure reason]

/-- Why a task ends with a restart. -/
def restartReason (w : Worker ρ μ) : Text := "worker ".toList ++ w.name ++ " restarted".toList

/-- Why a task ends with its worker. -/
def exitReason (w : Worker ρ μ) : Text := "worker ".toList ++ w.name ++ " exited".toList

/-- Ends the worker and starts it anew.  A task may be dropped; every other pending task keeps
its messages and gets a failure if none of them is the last one. -/
def restart [Mail μ] (w : Worker ρ μ) (dropped : Option TaskId) : Worker ρ μ :=
  let kept := w.pending.filter fun e => some e.1 ≠ dropped
  let routed := routeAll kept ((w.queues.map Queues.responses).getD [])
  let settled := routed.map fun (t, b) => (t, settleBuffer w.restartReason b)
  start { w with pending := settled }

/-- The running worker takes the next request and works out the messages for it. -/
def take (answer : ρ → List μ) (w : Worker ρ μ) : Worker ρ μ :=
  match w.isAlive, w.working, w.queues with
  | true, none, some ⟨(t, r) :: rest, responses⟩ =>
    { w with working := some (t, answer r), queues := some ⟨rest, responses⟩ }
  | _, _, _ => w

/-- The running worker sends the next message for the task at hand. -/
def emit (w : Worker ρ μ) : Worker ρ μ :=
  match w.isAlive, w.working with
  | true, some (_, []) => { w with working := none }
  | true, some (t, m :: rest) =>
    (w.respond t m) |> fun w => { w with working := if rest.isEmpty then none else some (t, rest) }
  | _, _ => w

/-- Answers every request in the queue. -/
def answerAll (answer : ρ → List μ) (w : Worker ρ μ) : Worker ρ μ :=
  w.onQueues fun q => ⟨[], q.responses ++ q.requests.flatMap fun (t, r) => (answer r).map fun m => (t, m)⟩

/-- How many messages wait in the buffers and on the queue. -/
def backlog (w : Worker ρ μ) : Nat :=
  (w.pending.flatMap (·.2)).length + (w.queues.map fun q => q.responses.length).getD 0

end Worker

end DrawFormula
