import Monkey.Token.Basic
import Monkey.Token.Cursor

/-
  From text to tokens.

  `Cursor.nextToken` reads the longest token after any blanks.
  `tokens` lists the tokens of a text; the last one, and only
  that, is of kind `eof`.
-/

namespace Monkey

------------------------------------------------------------
-- One Token
------------------------------------------------------------

namespace Cursor

/- Read a token of known length that starts here. -/
def takeToken
    (cur : Cursor)
    (kind : TokenKind)
    (size : Nat) :
    Token × Cursor :=
  ({ kind := kind
     literal := String.ofList (cur.rest.take size)
     line := cur.line
     column := cur.column },
    cur.skip size)

/- Read the token that starts here, at no blank. -/
def tokenHere (cur : Cursor) : Token × Cursor :=
  match cur.rest with
  | [] => cur.takeToken .eof 0
  | '=' :: '=' :: _ => cur.takeToken .eq 2
  | '!' :: '=' :: _ => cur.takeToken .notEq 2
  | c :: _ =>
      match TokenKind.ofMark? c with
      | some kind => cur.takeToken kind 1
      | none =>
          if c = '"' then
            let (content, after) := cur.takeQuoted
            ({ kind := .string
               literal := content
               line := cur.line
               column := cur.column },
              after)
          else if isLetter c then
            let word := cur.rest.takeWhile isLetter
            cur.takeToken
              (TokenKind.ofWord (String.ofList word))
              word.length
          else if isDigit c then
            cur.takeToken .int
              (cur.rest.takeWhile isDigit).length
          else
            cur.takeToken .illegal 1

/- Read the next token. -/
def nextToken (cur : Cursor) : Token × Cursor :=
  cur.skipBlanks.tokenHere

/-
  Read the tokens that are left, at most a number of them.
  Each one but the last takes a character, so one more than
  the characters left is enough.
-/
def tokensWithin : Nat → Cursor → List Token × Cursor
  | 0, cur => ([], cur)
  | n + 1, cur =>
      let (token, after) := cur.nextToken
      if token.kind = .eof then
        ([token], after)
      else
        let (more, last) := tokensWithin n after
        (token :: more, last)

/- Read all tokens that are left. -/
def takeTokens (cur : Cursor) : List Token × Cursor :=
  cur.tokensWithin (cur.rest.length + 1)

end Cursor

------------------------------------------------------------
-- All Tokens
------------------------------------------------------------

/- The tokens of a text. -/
def tokens (source : String) : List Token :=
  (Cursor.ofText source).takeTokens.1

end Monkey
