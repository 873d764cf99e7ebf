import DrawFormula.Draw
import DrawFormula.Request.Checked
import DrawFormula.Search.Params

/-! # Requests

A request asks for the backtests of formulas or for a search, over a history of its own.  It is
checked field by field before anything is done; the rules of draws are checked afterwards, when
its history is put in order.
-/
namespace DrawFormula

/-- The values of a draw before the rules of draws are checked. -/
structure RawDraw where
  period : Int
  numbers : List Int
  zodiacYear : Int
  weekday : Option Int
  stemBranch : Option Text
deriving Repr, DecidableEq

/-- A request for the backtests of formulas. -/
structure VerifyRequest where
  formulas : List Text
  history : List RawDraw
  targetPeriod : Option Int
  offset : Option Int
  periods : Option Int
  left : Option Int
  right : Option Int

/-- A request for a search. -/
structure SearchRequest where
  history : List RawDraw
  target : Float
  maxCount : Int
  strategy : Search.Strategy
  resultTypes : List ResultType
  offset : Int
  periods : Int
  left : Int
  right : Int
  seed : Option Int

/-- What is asked for. -/
inductive RequestKind where
  | verify | search
deriving Repr, DecidableEq

/-- The word for what is asked for. -/
def RequestKind.name : RequestKind → Text
  | verify => "verify".toList
  | search => "search".toList

/-- A request. -/
inductive Request where
  | verify (r : VerifyRequest)
  | search (r : SearchRequest)

/-- What a request asks for. -/
def Request.kind : Request → RequestKind
  | verify _ => .verify
  | search _ => .search

/-- The values of a request's history. -/
def Request.history : Request → List RawDraw
  | verify r => r.history
  | search r => r.history

namespace RawDraw

/-- The draw of the values. -/
def toDraw (r : RawDraw) : Except DrawError Draw :=
  Draw.make r.period r.numbers r.zodiacYear r.weekday r.stemBranch

/-- The values of a draw. -/
def ofDraw (d : Draw) : RawDraw := ⟨d.period, d.numbers, d.zodiacYear, d.weekday, d.stemBranch⟩

/-- The JSON form. -/
def toJson (r : RawDraw) : Json :=
  .record [("period", .int r.period), ("numbers", .arr (r.numbers.map .int)),
    ("zodiac_year", .int r.zodiacYear), ("weekday", Json.opt .int r.weekday),
    ("stem_branch", Json.opt .str r.stemBranch)]

/-- The draws of the values, newest first; the order of draws of one period is kept. -/
def toHistory (rs : List RawDraw) : Except DrawError (List Draw) :=
  (rs.mapM toDraw).map fun draws => draws.mergeSort fun a b => b.period ≤ a.period

/-- Checks the values of a draw; `kind` is the problem of a record that is none. -/
def check (kind : ProblemKind) (v : Json) : Checked RawDraw :=
  (Checked.fields kind v).andThen fun fs =>
    mk <$> Checked.required fs "period" Checked.int
      <*> Checked.required fs "numbers" (Checked.list Checked.int)
      <*> Checked.field fs "zodiac_year" Number.defaultYear Checked.int
      <*> Checked.field fs "weekday" none (Checked.optional Checked.int)
      <*> Checked.field fs "stem_branch" none (Checked.optional Checked.text)

end RawDraw

namespace Request

/-- Checks that a field, if it is there, names what is asked for. -/
def checkKind (fs : List (Text × Json)) (kind : RequestKind) : Checked Unit :=
  Checked.field fs "kind" () (Checked.word .notLiteral fun t =>
    if t = kind.name then some () else none)

/-- Checks a history; `kind` is the problem of a record that is none. -/
def checkHistory (fs : List (Text × Json)) (kind : ProblemKind) : Checked (List RawDraw) :=
  Checked.field fs "history" [] (Checked.list (RawDraw.check kind))

/-- Checks a request for backtests; `kind` is the problem of a record that is none. -/
def checkVerify (kind : ProblemKind) (v : Json) : Checked VerifyRequest :=
  (Checked.fields kind v).andThen fun fs =>
    let free (name : String) : Checked (Option Int) :=
      Checked.field fs name none (Checked.optional Checked.int)
    let atLeast (low : Int) (name : String) : Checked (Option Int) :=
      Checked.field fs name none (Checked.optional (Checked.intWithin low none))
    checkKind fs .verify *> (VerifyRequest.mk
      <$> Checked.required fs "formulas" (Checked.list Checked.text)
      <*> checkHistory fs kind
      <*> free "target_period"
      <*> free "offset"
      <*> atLeast 1 "periods"
      <*> atLeast 0 "left_expand"
      <*> atLeast 0 "right_expand")

/-- Checks a request for a search; `kind` is the problem of a record that is none. -/
def checkSearch (kind : ProblemKind) (v : Json) : Checked SearchRequest :=
  (Checked.fields kind v).andThen fun fs =>
    let atLeast (low : Int) (name : String) (default : Int) : Checked Int :=
      Checked.field fs name default (Checked.intWithin low none)
    checkKind fs .search *> (SearchRequest.mk
      <$> checkHistory fs kind
      <*> Checked.required fs "target_hit_rate" (Checked.numberWithin 0 100)
      <*> Checked.field fs "max_count" 20 (Checked.intWithin 1 (some 1000))
      <*> Checked.field fs "strategy" .fast (Checked.word .notLiteral Search.Strategy.ofName?)
      <*> Checked.field fs "result_types" [.tail]
        (Checked.list (Checked.word .notMember ResultType.ofToken?))
      <*> Checked.field fs "offset" 0 Checked.int
      <*> atLeast 1 "periods" 15
      <*> atLeast 0 "left_expand" 0
      <*> atLeast 0 "right_expand" 0
      <*> Checked.field fs "seed" none (Checked.optional Checked.int))

/-- Checks a request: its tag says what is asked for. -/
def check (v : Json) : Checked Request :=
  (Checked.fields .noAttributes v).andThen fun fs =>
    match Checked.value? fs "kind" with
    | none => Checked.problem .noTag
    | some (.str tag) =>
      if tag = RequestKind.verify.name then
        ((checkVerify .notRecord v).map Request.verify).under tag
      else if tag = RequestKind.search.name then
        ((checkSearch .notRecord v).map Request.search).under tag
      else Checked.problem .unknownTag
    | some _ => Checked.problem .unknownTag

/-- The JSON form, with every field. -/
def toJson : Request → Json
  | verify r => .record [("kind", Json.str RequestKind.verify.name),
      ("formulas", .arr (r.formulas.map .str)), ("history", .arr (r.history.map RawDraw.toJson)),
      ("target_period", Json.opt .int r.targetPeriod), ("offset", Json.opt .int r.offset),
      ("periods", Json.opt .int r.periods), ("left_expand", Json.opt .int r.left),
      ("right_expand", Json.opt .int r.right)]
  | search r => .record [("kind", Json.str RequestKind.search.name),
      ("history", .arr (r.history.map RawDraw.toJson)), ("target_hit_rate", .float r.target),
      ("max_count", .int r.maxCount), ("strategy", .str r.strategy.name),
      ("result_types", .arr (r.resultTypes.map fun t => .str t.token)), ("offset", .int r.offset),
      ("periods", .int r.periods), ("left_expand", .int r.left), ("right_expand", .int r.right),
      ("seed", Json.opt .int r.seed)]

end Request

end DrawFormula
