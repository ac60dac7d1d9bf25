import Monkey.Token.Scan

/-
  Open brackets and input clean-up.

  `openDepth` counts the brackets that a text leaves open, for
  deciding whether the input goes on.  `normalize` drops the
  characters that are invisible and mean nothing.
-/

namespace Monkey

------------------------------------------------------------
-- Open Brackets
------------------------------------------------------------

namespace TokenKind

/- An opening parenthesis, bracket, or brace. -/
def opens : TokenKind → Bool
  | lparen => true
  | lbracket => true
  | lbrace => true
  | _ => false

/- A closing parenthesis, bracket, or brace. -/
def closes : TokenKind → Bool
  | rparen => true
  | rbracket => true
  | rbrace => true
  | _ => false

end TokenKind

/- The number of open brackets after one more token.  A closing
   one that closes nothing changes nothing. -/
def bracketStep
    (depth : Nat)
    (t : Token) :
    Nat :=
  if t.kind.opens then
    depth + 1
  else if t.kind.closes then
    depth - 1
  else
    depth

/- The number of brackets left open at the end of a text. -/
def openDepth (text : String) : Nat :=
  (tokens text).foldl bracketStep 0

------------------------------------------------------------
-- Invisible Characters
------------------------------------------------------------

/- The characters that input may hold unseen: spaces and joiners
   of no width, the no-break space, the byte order mark, and the
   carriage return. -/
def isInvisible (c : Char) : Bool :=
  let n := c.toNat
  n == 0x200B || n == 0x200C || n == 0x200D ||
    n == 0xFEFF || n == 0xA0 || c == '\r'

/- A text without its invisible characters. -/
def normalize (text : String) : String :=
  String.ofList (text.toList.filter (!isInvisible ·))

end Monkey
