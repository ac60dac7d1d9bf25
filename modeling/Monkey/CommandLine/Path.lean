import Monkey.Text.Split

/-
  Paths of files.

  A path is a text whose parts stand between slashes.  An empty
  part and a dot stay where they are, and two dots lead out of a
  directory.  `tidyPath` leaves out the parts that stay, so that
  a path to a file may then end in a slash.
-/

namespace Monkey

------------------------------------------------------------
-- Parts
------------------------------------------------------------

/- The parts of a path between slashes. -/
def pathParts (path : String) : List String :=
  (splitChar '/' path.toList).map String.ofList

/- A part that stays in the directory it is looked up in. -/
def staysInPlace (part : String) : Bool :=
  part = "" || part = "."

/- The part that leads out of a directory. -/
def parentPart : String := ".."

/- A path that starts at the root of the file system. -/
def fromRoot (path : String) : Bool :=
  path.toList.head? = some '/'

------------------------------------------------------------
-- Limits
------------------------------------------------------------

/- The most bytes that a part of a path can have. -/
def nameLimit : Nat := 255

/- The most bytes that a path can have. -/
def pathLimit : Nat := 4095

/- A path with a zero character, which no path can have. -/
def hasZero (path : String) : Bool :=
  path.toList.contains '\x00'

------------------------------------------------------------
-- Tidy Paths
------------------------------------------------------------

/- The slashes that a tidy path starts with: two stay two, and
   any other number becomes one. -/
def rootMark (path : String) : String :=
  match path.toList.takeWhile (· = '/') with
  | [] => ""
  | ['/', '/'] => "//"
  | _ => "/"

/- A path without the parts that stay in place; a dot where no
   part is left. -/
def tidyPath (path : String) : String :=
  let root := rootMark path
  let parts := (pathParts path).filter (!staysInPlace ·)
  if root = "" && parts.isEmpty then
    "."
  else
    root ++ String.intercalate "/" parts

end Monkey
