import Monkey.CommandLine.Path

/-
  Files as the command line sees them.

  `Directory.entry` tells what a path names, seen from a
  directory that holds plain files only.  `decodeFile` reads the
  bytes of a file as UTF-8 text with one kind of line break.
-/

namespace Monkey

------------------------------------------------------------
-- Entries
------------------------------------------------------------

/-
  What a path names: a file, a directory, nothing, nothing
  because it goes on after a file, or nothing because no file
  can have such a name.
-/
inductive FileEntry where
  | file (bytes : ByteArray)
  | directory
  | missing
  | notDirectory
  | nameTooLong
  | zeroCharacter

/- The files of a directory by name. -/
structure Directory where
  files : List (String × ByteArray)

namespace Directory

/- The file of a name. -/
def file?
    (d : Directory)
    (name : String) :
    Option ByteArray :=
  (d.files.find? (·.1 == name)).map (·.2)

/-
  Follow the parts of a path, either from the directory or from
  one further out.  Further out there are directories up to the
  root, whose parent is the root itself, and no known names.
  The first part that cannot be followed decides.
-/
def follow
    (d : Directory)
    (inside : Bool) :
    List String → FileEntry
  | [] => .directory
  | part :: rest =>
      if staysInPlace part then
        follow d inside rest
      else if part = parentPart then
        follow d false rest
      else if nameLimit < part.utf8ByteSize then
        .nameTooLong
      else
        match inside, d.file? part, rest with
        | true, some bytes, [] => .file bytes
        | true, some _, _ :: _ => .notDirectory
        | _, _, _ => .missing

/- What a path names, seen from the directory.  The empty path
   names nothing. -/
def entry
    (d : Directory)
    (path : String) :
    FileEntry :=
  if path = "" then
    .missing
  else if hasZero path then
    .zeroCharacter
  else if pathLimit < path.utf8ByteSize then
    .nameTooLong
  else
    d.follow (!fromRoot path) (pathParts path)

end Directory

------------------------------------------------------------
-- File Text
------------------------------------------------------------

/- A text with every kind of line break made a line feed. -/
def unifyLineBreaks : List Char → List Char
  | [] => []
  | '\r' :: '\n' :: cs => '\n' :: unifyLineBreaks cs
  | c :: cs =>
      (if c = '\r' then '\n' else c) :: unifyLineBreaks cs

/- The text of a file, if its bytes are UTF-8. -/
def decodeFile (bytes : ByteArray) : Option String :=
  (String.fromUTF8? bytes).map fun text =>
    String.ofList (unifyLineBreaks text.toList)

end Monkey
