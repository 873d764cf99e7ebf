import DrawFormula.Request.Checked
import DrawFormula.Worker.Message

/-! # Responses of the service

A response has a status and a body.  A call that is refused says why; values that are not well
formed are answered by all their problems.
-/
namespace DrawFormula.Service

/-- The answer to a call. -/
inductive Response where
  | value (v : Json)
  /-- Messages one after the other, as they come. -/
  | messages (ms : List Message)
  /-- The values break a rule. -/
  | refused (reason : Text)
  /-- There is no such thing. -/
  | notFound (reason : Text)
  /-- The resource is there, but not for this method. -/
  | wrongMethod
  /-- The values are not well formed. -/
  | invalid (problems : List Problem)
  /-- The service itself has failed. -/
  | failed

namespace Response

/-- The status. -/
def status : Response → Nat
  | value _ | messages _ => 200
  | refused _ => 400
  | notFound _ => 404
  | wrongMethod => 405
  | invalid _ => 422
  | failed => 500

/-- A body that gives a reason. -/
def detail (reason : Text) : Json := .record [("detail", .str reason)]

/-- The body. -/
def body : Response → Json
  | value v => v
  | messages ms => .arr (ms.map Message.toJson)
  | refused reason | notFound reason => detail reason
  | wrongMethod => detail "Method Not Allowed".toList
  | invalid problems => Problem.listJson problems
  | failed => .lit "Internal Server Error"

/-- Whether the call was answered as asked. -/
def isOk (r : Response) : Bool := r.status = 200

end Response

end DrawFormula.Service
