import DrawFormula.Path

/-! # Files

The texts of files by their places, and the folders beside them.  A path is followed step by step:
whatever is behind a slash lies in the folder before it, and two dots lead out of a folder that is
there.  So a path may lead nowhere although its normal form names a file.
-/
namespace DrawFormula

/-- A place where a file or a folder may be.  The steps of a place that is not absolute begin at the
current folder; two dots lead out of it. -/
structure Place where
  absolute : Bool
  steps : List Text
deriving Repr, DecidableEq

namespace Place

/-- The two dots that lead out of a folder. -/
def dots : Text := ['.', '.']

/-- The folder that a place is in. -/
def out (p : Place) : Place :=
  if !p.absolute && p.steps.all (· = dots) then { p with steps := dots :: p.steps }
  else { p with steps := p.steps.dropLast }

/-- The place that is one step further. -/
def enter (p : Place) (step : Text) : Place :=
  if step = ['.'] then p
  else if step = dots then p.out
  else { p with steps := p.steps ++ [step] }

/-- Where the steps of a path begin. -/
def start (path : Text) : Place := ⟨path.head? = some '/', []⟩

/-- The place that a path names, whatever may lie on the way. -/
def ofPath (path : Text) : Place := (Path.components path).foldl enter (start path)

/-- Whether a place lies somewhere in another one. -/
def isIn (p folder : Place) : Bool :=
  p.absolute = folder.absolute && folder.steps.isPrefixOf p.steps &&
    folder.steps.length < p.steps.length

/-- Whether a place is the outermost folder, the current one, or one around it. -/
def isOutermost (p : Place) : Bool := if p.absolute then p.steps.isEmpty else p.steps.all (· = dots)

/-- The path of a place. -/
def path (p : Place) : Text := Path.ofComponents (if p.absolute then ['/'] else []) p.steps

end Place

/-- What is at a place. -/
inductive FileNode where
  | file (text : Text)
  | folder
deriving Repr, DecidableEq

/-- The files and folders that there are. -/
structure Files where
  /-- The texts of files by their paths. -/
  texts : List (Text × Text)
  /-- The folders that are known besides those that hold a file. -/
  folders : List Text

/-- Why a file is not read or not written. -/
inductive FileError where
  /-- There is no such file, or no folder for it. -/
  | missing (path : Text)
  /-- There is a folder of this path. -/
  | isFolder (path : Text)
  /-- A file stands where the path needs a folder. -/
  | notFolder (path : Text)
  /-- The path or one of its components is too long. -/
  | tooLong (path : Text)
  /-- The path holds the character that no path can hold. -/
  | unnamable
deriving Repr, DecidableEq

/-- The wording for a path that holds the character that no path can hold. -/
def FileError.unnamableText : String := "embedded null byte"

namespace Files

/-- No files. -/
def empty : Files := ⟨[], []⟩

/-- What is at a place. -/
def at? (files : Files) (p : Place) : Option FileNode :=
  match files.texts.find? fun f => Place.ofPath f.1 = p with
  | some (_, text) => some (.file text)
  | none =>
    if p.isOutermost || files.texts.any (fun f => (Place.ofPath f.1).isIn p) ||
      files.folders.any (fun f => Place.ofPath f = p) then some .folder
    else none

/-- The most bytes of a component. -/
def longestName : Nat := 255

/-- The most bytes of a path. -/
def longestPath : Nat := 4095

/-- How many bytes a text has in a path. -/
def byteCount (t : Text) : Nat := t.foldr (fun c n => c.utf8Size + n) 0

/-- The place that steps from a place lead to; every place that is left behind has to be a folder. -/
def follow (files : Files) (path : Text) (p : Place) : List Text → Except FileError Place
  | [] => .ok p
  | step :: rest =>
    match files.at? p with
    | none => .error (.missing path)
    | some (.file _) => .error (.notFolder path)
    | some .folder =>
      if longestName < byteCount step then .error (.tooLong path)
      else files.follow path (p.enter step) rest

/-- Checks that a text can be a path. -/
def checkPath (path : Text) : Except FileError Unit :=
  if path.any fun c => c.toNat = 0 then .error .unnamable
  else if longestPath < byteCount path then .error (.tooLong path)
  else .ok ()

/-- Reads the file that the normal form of a path leads to. -/
def read (files : Files) (path : Text) : Except FileError Text := do
  let path := Path.normal path
  checkPath path
  match files.at? (← files.follow path (Place.start path) (Path.components path)) with
  | some (.file text) => return text
  | some .folder => throw (.isFolder path)
  | none => throw (.missing path)

/-- Reads a file unless the path leads nowhere. -/
def readIfThere (files : Files) (path : Text) : Except FileError (Option Text) :=
  match files.read path with
  | .ok text => .ok (some text)
  | .error (.missing _) | .error (.notFolder _) | .error .unnamable => .ok none
  | .error e => .error e

/-- The place of the file that is written at a path.  It has to be in a folder that is there, and a
path with a slash or dots at its end names no file. -/
def writablePlace (files : Files) (path : Text) : Except FileError Place := do
  checkPath path
  let steps := Path.steps path
  let folder ← files.follow path (Place.start path) steps.dropLast
  match steps.getLast? with
  | none => throw (.isFolder path)
  | some name =>
    let p ← files.follow path folder [name]
    if name = ['.'] || name = Place.dots || path.getLast? = some '/' || files.at? p = some .folder then
      throw (.isFolder path)
    return p

end Files

end DrawFormula
