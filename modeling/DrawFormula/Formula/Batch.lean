import DrawFormula.Formula.Reader

/-! # Batches of formulas

A batch is a text with one formula a line.  Every line that is not blank, a display index aside,
gives either a formula or a diagnostic, and a bad line does not stop the others unless a number
in it has too many digits.  A line that repeats the formula of an earlier line is a diagnostic too.
-/
namespace DrawFormula

/-- What is wrong with one line of a batch; lines are counted from 1. -/
inductive Diagnostic where
  /-- The line is no formula. -/
  | fault (fault : ParseFault) (text : Text) (line : Nat)
  /-- The line repeats an earlier formula. -/
  | duplicate (text : Text) (line firstLine : Nat)
deriving Repr, DecidableEq

namespace Diagnostic

/-- The number of the line. -/
def line : Diagnostic → Nat
  | .fault _ _ n => n
  | .duplicate _ n _ => n

/-- The kind of the diagnostic. -/
def kind : Diagnostic → String
  | .fault .. => "ParseError"
  | .duplicate .. => "DuplicateFormula"

end Diagnostic

/-- The wording of a fault of a text, with the number of its line if it has one. -/
def ParseFault.message (fault : ParseFault) (text : Text) (line : Option Nat) : String :=
  let place := match line with
    | some n => s!"line {n}: "
    | none => ""
  place ++ fault.reason ++
    (if text.isEmpty then "" else " (" ++ String.ofList (Text.quoted text) ++ ")")

/-- The wording of a diagnostic. -/
def Diagnostic.message : Diagnostic → String
  | .fault f text line => f.message text (some line)
  | .duplicate text line first =>
    s!"line {line}: duplicate of line {first} (" ++ String.ofList (Text.quoted text) ++ ")"

/-- The formulas of a batch and what is wrong with its other lines. -/
structure Batch where
  formulas : List FormulaLine
  diagnostics : List Diagnostic
deriving Repr, DecidableEq

namespace Batch

/-- The line without a bracketed index at its start. -/
def dropIndex (t : Text) : Text :=
  match Formula.afterIndex? t with
  | some rest => Text.stripLeft rest
  | none => t

/-- The part of a line that is read as a formula. -/
def cleanLine (t : Text) : Text := Text.strip (dropIndex t)

/-- Adds the line at `index` to the batch, which is kept in reverse. -/
def addLine (batch : Batch) (index : Nat) (line : Text) : Except NumeralError Batch :=
  let clean := cleanLine line
  if clean.isEmpty then .ok batch
  else match Formula.readLine clean index with
    | .error (.fault fault) =>
      let faulty := Diagnostic.fault fault clean (index + 1)
      .ok { batch with diagnostics := faulty :: batch.diagnostics }
    | .error (.numeral e) => .error e
    | .ok read =>
      match batch.formulas.find? fun earlier => earlier.formula = read.formula with
      | some earlier =>
        let repeated := Diagnostic.duplicate clean (index + 1) (earlier.index.toNat + 1)
        .ok { batch with diagnostics := repeated :: batch.diagnostics }
      | none => .ok { batch with formulas := read :: batch.formulas }

/-- Adds the lines from `index` on to the batch. -/
def addLines (batch : Batch) (index : Nat) : List Text → Except NumeralError Batch
  | [] => .ok batch
  | line :: rest =>
    match addLine batch index line with
    | .ok batch => addLines batch (index + 1) rest
    | .error e => .error e

/-- Reads a batch.  A number with too many digits in any line is an error of the whole batch. -/
def read (t : Text) : Except NumeralError Batch :=
  (addLines ⟨[], []⟩ 0 (Text.splitLines t)).map fun batch =>
    ⟨batch.formulas.reverse, batch.diagnostics.reverse⟩

end Batch

end DrawFormula
