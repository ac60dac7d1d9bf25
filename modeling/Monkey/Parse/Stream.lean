import Monkey.Token.Scan

/-
  The tokens that a parser has yet to pass, and how it fails.

  A `TokenStream` shows its current token and the one after it;
  once the tokens have run out it shows the last one for ever.
  `Parse` is a computation on a stream that keeps the place it
  reached, also when it fails.
-/

namespace Monkey

------------------------------------------------------------
-- Token Streams
------------------------------------------------------------

/-
  The tokens from the current one on, and the token to show
  when there are no more.
-/
structure TokenStream where
  pending : List Token
  final : Token

namespace TokenStream

/- The tokens of a text, whose last one is its end. -/
def ofText (source : String) : TokenStream :=
  let ts := tokens source
  { pending := ts
    final := ts.getLastD ⟨.eof, "", 1, 1⟩ }

/- The current token. -/
def current (s : TokenStream) : Token :=
  s.pending.headD s.final

/- The token after the current one. -/
def peek (s : TokenStream) : Token :=
  s.pending.tail.headD s.final

/- Pass the current token. -/
def advance (s : TokenStream) : TokenStream :=
  { s with pending := s.pending.tail }

end TokenStream

------------------------------------------------------------
-- Errors
------------------------------------------------------------

/- What can be wrong with the structure of a text. -/
inductive ParseError.Cause where
  | unexpected (wanted : TokenKind) (got : TokenKind)
  | noExpression (kind : TokenKind)
  | longInteger (digits : String)

/- What is wrong, and the token where it shows. -/
structure ParseError where
  cause : ParseError.Cause
  token : Token

namespace ParseError

/- What is wrong, without the place. -/
def Cause.message : Cause → String
  | unexpected wanted got =>
      "expected next token to be " ++ wanted.name ++
        ", got " ++ got.name ++ " instead"
  | noExpression kind =>
      "no prefix parse function for " ++ kind.name ++
        " found"
  | longInteger digits =>
      "could not parse " ++ quoted digits ++ " as integer"

/- What is wrong and where. -/
def message (e : ParseError) : String :=
  e.cause.message ++ " at line " ++ toString e.token.line ++
    ", col " ++ toString e.token.column

end ParseError

/- A parser stops at an error, or where nesting is too deep. -/
inductive ParseFailure where
  | error (e : ParseError)
  | tooDeep

------------------------------------------------------------
-- Parsers
------------------------------------------------------------

/- A computation on the tokens ahead. -/
abbrev Parse := EStateM ParseFailure TokenStream

namespace Parse

/- The current token. -/
def current : Parse Token := do
  return (← get).current

/- The token after the current one. -/
def peek : Parse Token := do
  return (← get).peek

/- Pass the current token. -/
def advance : Parse Unit :=
  modify TokenStream.advance

/- Stop at a token with an error. -/
def fail
    {α : Type}
    (cause : ParseError.Cause)
    (token : Token) :
    Parse α :=
  throw (.error { cause := cause, token := token })

/- Pass the current token if a certain kind follows. -/
def expect (kind : TokenKind) : Parse Unit := do
  let t ← peek
  if t.kind = kind then
    advance
  else
    fail (.unexpected kind t.kind) t

/- Pass the current token where a certain kind follows, and
   stay where it does not. -/
def acceptOptional (kind : TokenKind) : Parse Unit := do
  if (← peek).kind = kind then
    advance

/-
  More rounds than a loop can go through that passes a token in
  each round.
-/
def rounds : Parse Nat := do
  return (← get).pending.length + 1

end Parse

end Monkey
