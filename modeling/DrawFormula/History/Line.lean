import DrawFormula.Draw

/-! # Draws from lines of text

A line holds a period and the seven numbers of its draw between separators.  In a text, lines that
hold no draw are passed over and the first draw of a period counts.
-/
namespace DrawFormula

/-- Why a line holds no draw. -/
inductive LineError where
  /-- There are not eight fields. -/
  | wrongCount (line : Text)
  /-- A field is no integer. -/
  | notNumeric (line : Text)
  /-- The values break a rule of draws. -/
  | draw (e : DrawError)
deriving Repr, DecidableEq

/-- The wording of the error. -/
def LineError.message : LineError → String
  | .wrongCount line => "expected period + 7 numbers: " ++ String.ofList (Text.quoted line)
  | .notNumeric line => "non-numeric value: " ++ String.ofList (Text.quoted line)
  | .draw e => e.message

namespace History

/-- Characters between fields: blanks and the narrow and wide forms of four marks. -/
def isSeparator (c : Char) : Bool :=
  Text.isBlank c || [',', ':', ';', '|', '，', '；', '：'].contains c

/-- The fields of a line. -/
def fieldsOf (line : Text) : List Text :=
  (Text.splitAtAll isSeparator line).filter fun field => !field.isEmpty

/-- The integers that fields denote, if each denotes one. -/
def integers? (fields : List Text) : Option (List Int) :=
  fields.mapM fun field => (Text.readInt field).toOption

/-- The draw on a line. -/
def ofLine (line : Text) (zodiacYear : Int) : Except LineError Draw :=
  let fields := fieldsOf line
  if fields.length ≠ 8 then .error (.wrongCount line)
  else match integers? fields with
    | some (period :: numbers) =>
      (Draw.make period numbers zodiacYear none none).mapError .draw
    | _ => .error (.notNumeric line)

/-- Puts a draw into a list in descending order of periods, unless its period is there. -/
def insertNew (d : Draw) : List Draw → List Draw
  | [] => [d]
  | e :: rest =>
    if e.period < d.period then d :: e :: rest
    else if e.period = d.period then e :: rest
    else e :: insertNew d rest

/-- The draws on the lines of a text, newest first; the first draw of a period counts. -/
def ofText (text : Text) (zodiacYear : Int) : List Draw :=
  ((Text.splitLines text).filterMap fun line => (ofLine line zodiacYear).toOption).foldl
    (fun draws d => insertNew d draws) []

end History

end DrawFormula
