import DrawFormula.Text.Utf8

/-! # Targets of calls

The target of a call names a resource by the segments of a path and may have parameters after a
question mark.  Characters may be written as their bytes, each a percent sign and two hexadecimal
digits.  In a path this is undone twice, after the dots among the segments, as they are written, have
led nowhere or back.
-/
namespace DrawFormula.Service

/-- What a call is directed to. -/
structure Target where
  /-- The segments of the path, between its slashes. -/
  segments : List Text
  /-- The names and values of the parameters in their order. -/
  parameters : List (Text × Text)
deriving Repr, DecidableEq

namespace Target

/-- The value of a hexadecimal digit. -/
def hexValue? (c : Char) : Option Nat :=
  if '0' ≤ c ∧ c ≤ '9' then some (c.toNat - '0'.toNat)
  else if 'a' ≤ c ∧ c ≤ 'f' then some (c.toNat - 'a'.toNat + 10)
  else if 'A' ≤ c ∧ c ≤ 'F' then some (c.toNat - 'A'.toNat + 10)
  else none

/-- The byte that two hexadecimal digits write. -/
def byte? (high low : Char) : Option UInt8 :=
  match hexValue? high, hexValue? low with
  | some h, some l => some (UInt8.ofNat (16 * h + l))
  | _, _ => none

/-- The bytes of an encoded text. -/
def bytesOf : Text → List UInt8
  | [] => []
  | '%' :: high :: low :: rest =>
    match byte? high low with
    | some b => b :: bytesOf rest
    | none => '%'.toNat.toUInt8 :: bytesOf (high :: low :: rest)
  | c :: rest => String.utf8EncodeChar c ++ bytesOf rest

/-- The text that an encoded one stands for. -/
def decode (t : Text) : Text := Text.ofBytes (bytesOf t)

/-- The name and the value of an encoded parameter, where a plus sign stands for a blank. -/
def parameter (t : Text) : Text × Text :=
  let read (part : Text) := decode (part.map fun c => if c = '+' then ' ' else c)
  let name := t.takeWhile (· ≠ '=')
  (read name, read (t.drop (name.length + 1)))

/-- The segments without dots: one dot stays at its place, two lead back to the segment before. -/
def withoutDots (segments : List Text) : List Text :=
  segments.foldl (fun kept s =>
    if s = ['.'] then kept else if s = ['.', '.'] then kept.dropLast else kept ++ [s]) []

/-- A path without the name of a host, which two slashes introduce. -/
def withoutHost : Text → Text
  | '/' :: '/' :: rest => rest.dropWhile (· ≠ '/')
  | path => path

/-- The segments of a path. -/
def segmentsOf (path : Text) : List Text :=
  let written := withoutDots (Text.splitAtAll (· = '/') ((withoutHost path).dropWhile (· = '/')))
  Text.splitAtAll (· = '/') (decode (decode (List.intercalate ['/'] written)))

/-- The target that a text writes; what follows a number sign does not belong to it. -/
def ofText (t : Text) : Target :=
  let t := t.takeWhile (· ≠ '#')
  let path := t.takeWhile (· ≠ '?')
  let query := Text.splitAtAll (· = '&') (t.drop (path.length + 1))
  ⟨segmentsOf path, (query.filter fun p => !p.isEmpty).map parameter⟩

/-- The last value of a parameter. -/
def parameter? (t : Target) (name : String) : Option Text :=
  (t.parameters.reverse.find? fun p => p.1 = name.toList).map (·.2)

/-- The segments without empty ones at the end. -/
def trimmed (segments : List Text) : List Text :=
  (segments.reverse.dropWhile List.isEmpty).reverse

end Target

end DrawFormula.Service
