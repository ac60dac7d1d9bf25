import Monkey.Text.Blank

/-
  A reading position in a text.

  A `Cursor` keeps what was read and what is left, so that no
  operation can lose a character, together with the line and
  column of the next one.  `skip` is the only way forward; the
  scanners are `skip` by the length of what they found.
-/

namespace Monkey

------------------------------------------------------------
-- Cursors
------------------------------------------------------------

/-
  A position in a text: the characters read, latest first, the
  characters left, and the line and column of the next one,
  both counted from one.
-/
structure Cursor where
  consumed : List Char
  rest : List Char
  line : Nat
  column : Nat

/- What a cursor refuses to do. -/
inductive CursorError where
  | negativeAdvance (amount : Int)
  | outOfRange

namespace Cursor

/- The start of a text. -/
def ofText (text : String) : Cursor where
  consumed := []
  rest := text.toList
  line := 1
  column := 1

/- The number of characters read. -/
def position (cur : Cursor) : Nat :=
  cur.consumed.length

/- The whole text, read or not. -/
def source (cur : Cursor) : List Char :=
  cur.consumed.reverse ++ cur.rest

------------------------------------------------------------
-- Moving
------------------------------------------------------------

/- Move over one character; a line break starts a line. -/
def step (cur : Cursor) : Cursor :=
  match cur.rest with
  | [] => cur
  | c :: rest =>
      if c = '\n' then
        { consumed := c :: cur.consumed
          rest := rest
          line := cur.line + 1
          column := 1 }
      else
        { consumed := c :: cur.consumed
          rest := rest
          line := cur.line
          column := cur.column + 1 }

/- Move over a number of characters, or to the end. -/
def skip : Nat → Cursor → Cursor
  | 0, cur => cur
  | n + 1, cur =>
      match cur.rest with
      | [] => cur
      | _ :: _ => skip n cur.step

/- Move over the blanks that come next. -/
def skipBlanks (cur : Cursor) : Cursor :=
  cur.skip (cur.rest.takeWhile isBlank).length

------------------------------------------------------------
-- Looking and Reading
------------------------------------------------------------

/-
  The character at an offset from the position.  Past the end
  there is none.  An index before the start counts from the
  end of the text, and one further back is out of range.
-/
def peek
    (cur : Cursor)
    (offset : Int) :
    Except CursorError (Option Char) :=
  let size : Int := cur.source.length
  let index : Int := cur.position + offset
  if size ≤ index then
    .ok none
  else if 0 ≤ index then
    .ok cur.source[index.toNat]?
  else if 0 ≤ index + size then
    .ok cur.source[(index + size).toNat]?
  else
    .error .outOfRange

/- Read a number of characters, as far as there are any. -/
def advance
    (cur : Cursor)
    (amount : Int) :
    Except CursorError (String × Cursor) :=
  if 0 ≤ amount then
    .ok (String.ofList (cur.rest.take amount.toNat),
      cur.skip amount.toNat)
  else
    .error (.negativeAdvance amount)

/- Read the longest run of characters of a class. -/
def takeWhile
    (p : Char → Bool)
    (cur : Cursor) :
    String × Cursor :=
  let run := cur.rest.takeWhile p
  (String.ofList run, cur.skip run.length)

/-
  Read a quoted text from its opening quote on.  Its content is
  taken as it stands, up to the next quote or, without one, to
  the end; both quotes are passed over.
-/
def takeQuoted (cur : Cursor) : String × Cursor :=
  let opened := cur.skip 1
  let content := opened.rest.takeWhile (· != '"')
  (String.ofList content,
    (opened.skip content.length).skip 1)

end Cursor

end Monkey
