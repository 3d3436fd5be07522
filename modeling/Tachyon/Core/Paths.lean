import Tachyon.Library.FileTree
import Mathlib.Data.List.SplitOn

/-!
# Paths of the standard library

`Path` splits its text into components, without the empty ones and the dots that change
nothing. A text that ends in a slash or a dot still leads into what its last component
names, which matters where that is a link.
-/

namespace Tachyon

/-- `Path`: whether the text begins with a slash, its `components()`, and whether it ends in
a slash or a dot behind the last of them. -/
structure StdPath where
  absolute : Bool
  components : List (FileTree.Step String)
  trailing : Bool

namespace StdPath

/-- The component of a piece of the text between slashes. -/
def component (piece : List Char) : Option (FileTree.Step String) :=
  if piece = [] ∨ piece = ['.'] then none
  else if piece = ['.', '.'] then some .parent
  else some (.name (String.ofList piece))

/-- `Path::new`. -/
def new (text : String) : StdPath :=
  let pieces := text.toList.splitOn '/'
  let absolute := text.toList.head? = some '/'
  let leading := if !absolute && pieces.head? = some ['.'] then [.current] else []
  let components := leading ++ pieces.filterMap component
  let trailing := pieces.getLast?.any fun piece => (component piece).isNone
  ⟨absolute, components, !components.isEmpty && trailing⟩

/-- The path as the system reads it. -/
def toPath (p : StdPath) : FileTree.Route String :=
  ⟨p.absolute, if p.trailing then p.components ++ [.current] else p.components⟩

/-- `Path::display` of a path whose text has no superfluous slashes and dots. -/
def display (p : StdPath) : String :=
  let texts := p.components.map fun
    | .current => "."
    | .parent => ".."
    | .name n => n
  (if p.absolute then "/" else "") ++ String.intercalate "/" texts

/-- `Path::parent`. -/
def parent (p : StdPath) : Option StdPath :=
  if p.components.isEmpty then none else some ⟨p.absolute, p.components.dropLast, false⟩

/-- `Path::file_name`. -/
def fileName (p : StdPath) : Option String :=
  match p.components.getLast? with
  | some (.name n) => some n
  | _ => none

/-- The ancestors above components given from the last to the first. -/
def ancestorsFrom (absolute : Bool) : List (FileTree.Step String) → List StdPath
  | [] => []
  | _ :: above => ⟨absolute, above.reverse, false⟩ :: ancestorsFrom absolute above

/-- `Path::ancestors`. -/
def ancestors (p : StdPath) : List StdPath := p :: ancestorsFrom p.absolute p.components.reverse

/-- The components `Path::strip_prefix` leaves. -/
def stripPrefix (p base : StdPath) : Option (List (FileTree.Step String)) :=
  if p.absolute = base.absolute ∧ base.components <+: p.components then
    some (p.components.drop base.components.length)
  else none

end StdPath

/-- The text of a canonical path. -/
def displayPath (loc : List String) : String := "/" ++ String.intercalate "/" loc

/-- The text of an I/O error. -/
def failureText : FileTree.Failure → String
  | .notFound => "No such file or directory (os error 2)"
  | .notDirectory => "Not a directory (os error 20)"
  | .tooManyLinks => "Too many levels of symbolic links (os error 40)"
  | .alreadyExists => "File exists (os error 17)"
  | .refused => "Permission denied (os error 13)"

end Tachyon
