import Monkey.Text.Printable

/-
  Quoted text.

  `quoted` shows any text on one line between quotes.  Line
  breaks, tabs, backslashes, the surrounding quote, and every
  unprintable character are written as escapes, so the quoted
  form never holds a character without a graphic form.
-/

namespace Monkey

------------------------------------------------------------
-- Escapes
------------------------------------------------------------

/- A number in lower-case hexadecimal, padded with zeros. -/
def hexDigits
    (width : Nat)
    (n : Nat) :
    List Char :=
  let digits := Nat.toDigits 16 n
  List.replicate (width - digits.length) '0' ++ digits

/-
  The escape of a character by its code: two, four, or eight
  digits, the shortest that can hold it.
-/
def codeEscape (c : Char) : List Char :=
  let n := c.toNat
  if n < 0x100 then
    '\\' :: 'x' :: hexDigits 2 n
  else if n < 0x10000 then
    '\\' :: 'u' :: hexDigits 4 n
  else
    '\\' :: 'U' :: hexDigits 8 n

/- A character as it stands inside the given quotes. -/
def escapeChar
    (quote : Char)
    (c : Char) :
    List Char :=
  if c = quote || c = '\\' then
    ['\\', c]
  else if c = '\n' then
    ['\\', 'n']
  else if c = '\r' then
    ['\\', 'r']
  else if c = '\t' then
    ['\\', 't']
  else if isPrintable c then
    [c]
  else
    codeEscape c

------------------------------------------------------------
-- Quoting
------------------------------------------------------------

/-
  The quote for a text: double only where that saves escaping,
  when the text holds single quotes and no double ones.
-/
def quoteFor (cs : List Char) : Char :=
  if cs.contains '\'' && !cs.contains '"' then
    '"'
  else
    '\''

/- A text between quotes on one line. -/
def quoted (text : String) : String :=
  let quote := quoteFor text.toList
  String.ofList
    (quote :: text.toList.flatMap (escapeChar quote) ++
      [quote])

end Monkey
