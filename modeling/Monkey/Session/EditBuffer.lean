import Monkey.Session.Brackets

/-
  The line editor's buffer and its two special keys.

  An `EditBuffer` is the text before the cursor and the text
  after it.  Enter goes on to a new line while brackets are
  open, and otherwise hands the text in.  Backspace asks for
  completions where the text is a command.
-/

namespace Monkey

------------------------------------------------------------
-- Buffers
------------------------------------------------------------

/- The text before and after the cursor. -/
structure EditBuffer where
  before : List Char
  after : List Char

namespace EditBuffer

/- A text with the cursor at a position, or at its end. -/
def ofText
    (text : List Char)
    (cursor : Nat) :
    EditBuffer where
  before := text.take cursor
  after := text.drop cursor

/- The whole text. -/
def text (b : EditBuffer) : List Char :=
  b.before ++ b.after

/- The position of the cursor. -/
def cursor (b : EditBuffer) : Nat :=
  b.before.length

/- Insert a text at the cursor. -/
def insert
    (b : EditBuffer)
    (added : List Char) :
    EditBuffer :=
  { b with before := b.before ++ added }

/- Delete the character before the cursor, if any. -/
def deleteBefore (b : EditBuffer) : EditBuffer :=
  { b with before := b.before.dropLast }

/- Put the cursor at a position, or at the nearest end. -/
def moveTo
    (b : EditBuffer)
    (position : Int) :
    EditBuffer :=
  ofText b.text position.toNat

end EditBuffer

------------------------------------------------------------
-- Keys
------------------------------------------------------------

/- A buffer, and how often completions were asked for and the
   text was handed in. -/
structure Editor where
  buffer : EditBuffer
  completions : Nat
  accepted : Nat

/- What the user can do to the buffer. -/
inductive EditAction where
  | enter
  | backspace
  | insert (text : List Char)
  | move (position : Int)

namespace Editor

/- A line break and four spaces for each open bracket. -/
def continuationText (depth : Nat) : List Char :=
  '\n' :: List.replicate (4 * depth) ' '

/- Go on to a new line, or hand the text in. -/
def enter (e : Editor) : Editor :=
  let depth := openDepth (String.ofList e.buffer.text)
  if 0 < depth then
    { e with
      buffer := e.buffer.insert (continuationText depth) }
  else
    { e with accepted := e.accepted + 1 }

/- Delete a character, and ask for completions of a command. -/
def backspace (e : Editor) : Editor :=
  let buffer := e.buffer.deleteBefore
  if buffer.text.head? = some '/' then
    { e with buffer, completions := e.completions + 1 }
  else
    { e with buffer }

/- Do one action. -/
def act
    (e : Editor) :
    EditAction → Editor
  | .enter => e.enter
  | .backspace => e.backspace
  | .insert text =>
      { e with buffer := e.buffer.insert text }
  | .move position =>
      { e with buffer := e.buffer.moveTo position }

end Editor

end Monkey
