import Monkey.Text.Split
import Monkey.Token.Scan
import Monkey.Value.Basic

/-
  Highlighting of source lines.

  `highlightLine` cuts a line into fragments with a style each:
  one for every token, placed by its column, and unstyled ones
  for what lies between them.
-/

namespace Monkey

------------------------------------------------------------
-- Styles
------------------------------------------------------------

/- What tokens are grouped by for display. -/
inductive HighlightGroup where
  | keyword
  | boolean
  | number
  | string
  | identifier
  | builtin
  | operator
  | punctuation
  | error
  | plain

namespace HighlightGroup

/- The style of a group. -/
def style : HighlightGroup → String
  | keyword => "bold ansicyan"
  | boolean => "ansicyan"
  | number => "ansimagenta"
  | string => "ansigreen"
  | identifier => ""
  | builtin => "bold ansiyellow"
  | operator => ""
  | punctuation => ""
  | error => "bold ansired"
  | plain => ""

/- The group of a kind of token. -/
def ofKind : TokenKind → HighlightGroup
  | .fnWord | .letWord | .ifWord | .elseWord
  | .returnWord => keyword
  | .trueWord | .falseWord => boolean
  | .int => number
  | .string => string
  | .ident => identifier
  | .assign | .plus | .minus | .bang | .asterisk | .slash
  | .lt | .gt | .eq | .notEq => operator
  | .comma | .semicolon | .colon | .lparen | .rparen
  | .lbrace | .rbrace | .lbracket
  | .rbracket => punctuation
  | .illegal => error
  | .eof => plain

/- The group of a token: identifiers that name a builtin
   function have their own. -/
def ofToken (t : Token) : HighlightGroup :=
  if t.kind = .ident && (Builtin.ofName? t.literal).isSome then
    builtin
  else
    ofKind t.kind

end HighlightGroup

------------------------------------------------------------
-- Fragments
------------------------------------------------------------

/- A piece of a line and how to show it. -/
structure Fragment where
  style : String
  text : List Char
deriving DecidableEq

/- The part of a line from one position up to another. -/
def slice
    (line : List Char)
    (start : Nat)
    (stop : Nat) :
    List Char :=
  (line.drop start).take (stop - start)

/-
  The number of characters that a token takes on a line.  The
  text of a string leaves out its quotes, and the closing one
  may be missing.
-/
def Token.width
    (t : Token)
    (line : List Char)
    (start : Nat) :
    Nat :=
  let size := t.literal.length
  if t.kind = .string then
    let following := line.drop (start + 1 + size)
    if following.head? = some '"' then
      size + 2
    else
      size + 1
  else
    size

/- The fragments of a line from a position on, where the tokens
   that follow are known.  A token without a width is passed
   over. -/
def fragmentsFrom
    (line : List Char) :
    Nat → List Token → List Fragment
  | position, [] =>
      if position < line.length then
        [{ style := "", text := line.drop position }]
      else
        []
  | position, t :: rest =>
      let start := t.column - 1
      let width := t.width line start
      if width = 0 then
        fragmentsFrom line position rest
      else
        let stop := start + width
        let shown : Fragment :=
          { style := (HighlightGroup.ofToken t).style
            text := slice line start stop }
        let more := shown :: fragmentsFrom line stop rest
        if position < start then
          { style := "", text := slice line position start } ::
            more
        else
          more

/- The fragments of a line; an empty line has an empty one, and
   a line without any is a fragment as a whole. -/
def highlightLine (line : List Char) : List Fragment :=
  if line.isEmpty then
    [{ style := "", text := [] }]
  else
    let fragments :=
      fragmentsFrom line 0
        ((tokens (String.ofList line)).filter (·.kind ≠ .eof))
    if fragments.isEmpty then
      [{ style := "", text := line }]
    else
      fragments

------------------------------------------------------------
-- Documents
------------------------------------------------------------

/-
  The fragments of a line of a text by its number, from zero.
  A negative number counts from the last line, and one before
  the first line has no answer; past the last line there is an
  empty fragment.
-/
def highlightDocument
    (text : List Char)
    (number : Int) :
    Option (List Fragment) :=
  let lines := splitChar '\n' text
  if (lines.length : Int) ≤ number then
    some (highlightLine [])
  else
    let i := if number < 0 then number + lines.length
      else number
    if i < 0 then
      none
    else
      lines[i.toNat]?.map highlightLine

end Monkey
