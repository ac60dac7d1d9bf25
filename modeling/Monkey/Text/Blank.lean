/-
  Blank characters and the text operations built on them.

  `isBlank` lists the characters that separate tokens and that
  `strip` removes from both ends of a text.  `splitWord` cuts a
  text after its first word.
-/

namespace Monkey

------------------------------------------------------------
-- Blank Characters
------------------------------------------------------------

/-
  The blank characters: the ASCII controls tab to carriage
  return and file to unit separator, space, next line, and the
  spaces and separators beyond ASCII.
-/
def isBlank (c : Char) : Bool :=
  let n := c.toNat
  (0x09 ≤ n && n ≤ 0x0D) || (0x1C ≤ n && n ≤ 0x20) ||
    n == 0x85 || n == 0xA0 || n == 0x1680 ||
    (0x2000 ≤ n && n ≤ 0x200A) ||
    n == 0x2028 || n == 0x2029 || n == 0x202F ||
    n == 0x205F || n == 0x3000

------------------------------------------------------------
-- Stripping and Splitting
------------------------------------------------------------

/- Remove the blanks at the end of a text. -/
def dropBlanksRight (cs : List Char) : List Char :=
  (cs.reverse.dropWhile isBlank).reverse

/- Remove the blanks at both ends of a text. -/
def strip (text : String) : String :=
  String.ofList
    (dropBlanksRight (text.toList.dropWhile isBlank))

/-
  The first word of a text that starts with a word, and what
  follows the blanks after it.
-/
def splitWord (text : String) : String × String :=
  let word := text.toList.takeWhile (!isBlank ·)
  let after := text.toList.dropWhile (!isBlank ·)
  (String.ofList word,
    String.ofList (after.dropWhile isBlank))

/- A text with nothing but blanks. -/
def isBlankText (text : String) : Bool :=
  text.toList.all isBlank

end Monkey
