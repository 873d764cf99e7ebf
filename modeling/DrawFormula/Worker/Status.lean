import DrawFormula.Worker.Supervisor

/-! # Status of workers

What can be seen of workers and handles from outside, as JSON.
-/
namespace DrawFormula.Worker

variable {ρ : Type}

/-- How often the worker was started, whether it runs, and the buffers of its pending tasks. -/
def status (w : Worker ρ Json) : Json :=
  .record [("starts", .int w.starts), ("alive", .bool w.isAlive),
    ("pending", .arr (w.pending.map fun (t, ms) => .arr [.int t, .arr ms]))]

/-- What the task asks for, whether it is cancelled, whether it is done, and the kind of its last
message. -/
def Handle.status (h : Handle Json) : Json :=
  .arr [.str h.kind.name, .bool h.cancelled, .bool h.done,
    Json.opt (fun m => (m.field? "kind").getD .null) h.result]

/-- The status of both workers and of all handles. -/
def Supervisor.status (s : Supervisor ρ Json) : Json :=
  .record [("workers", .record [("verify", s.verify.status), ("search", s.search.status)]),
    ("handles", .arr (s.handles.map Handle.status))]

end DrawFormula.Worker
