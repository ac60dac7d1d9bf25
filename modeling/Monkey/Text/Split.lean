/-
  Splitting a text at a character.

  The parts of `splitChar`, with the character put between them
  again, are the text; there is always at least one part.
-/

namespace Monkey

------------------------------------------------------------
-- Splitting
------------------------------------------------------------

/- The parts of a text between the occurrences of a character. -/
def splitChar (mark : Char) : List Char → List (List Char)
  | [] => [[]]
  | c :: cs =>
      if c = mark then
        [] :: splitChar mark cs
      else
        match splitChar mark cs with
        | [] => [[c]]
        | part :: parts => (c :: part) :: parts

end Monkey
