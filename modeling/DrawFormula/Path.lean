import DrawFormula.Text.Basic

/-! # Paths of files

A path is a text of components with slashes between them.  Its normal form has no empty components
and no single dots; two dots stay, because what they lead to depends on the file system.
-/
namespace DrawFormula.Path

/-- What stands between the slashes. -/
def steps (path : Text) : List Text := (Text.splitAtAll (· = '/') path).filter fun c => !c.isEmpty

/-- The components that count. -/
def components (path : Text) : List Text := (steps path).filter (· ≠ ['.'])

/-- The slashes that a path begins with: two stay two, three and more are one. -/
def root (path : Text) : Text :=
  match path.takeWhile (· = '/') with
  | [] => []
  | [_, _] => ['/', '/']
  | _ => ['/']

/-- The path of a root and components. -/
def ofComponents (root : Text) (cs : List Text) : Text :=
  if root.isEmpty && cs.isEmpty then ['.'] else root ++ List.intercalate ['/'] cs

/-- The normal form. -/
def normal (path : Text) : Text := ofComponents (root path) (components path)

/-- The normal form of the file of a name in a folder. -/
def join (folder name : Text) : Text := ofComponents (root folder) (components folder ++ components name)

/-- The path itself and every path that leads part of the way to it. -/
def stages (path : Text) : List Text :=
  (List.range ((components path).length + 1)).map fun n =>
    ofComponents (root path) ((components path).take n)

/-- The part of the last component from its last dot on, unless the dot is its first or last
character. -/
def suffix (path : Text) : Text :=
  let name := (components path).getLast?.getD []
  let after := name.reverse.takeWhile (· ≠ '.')
  let before := name.length - after.length
  if 1 < before && !after.isEmpty then '.' :: after.reverse else []

end DrawFormula.Path
