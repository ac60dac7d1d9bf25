import Monkey.Text.Quoted

/-
  Tokens: their kinds, their spelling, and their description.

  `TokenKind.ofWord` tells keywords from identifiers, and
  `TokenKind.ofMark?` gives the kind of a one-character mark.
  `TokenKind.name` is the name that error messages use.
-/

namespace Monkey

------------------------------------------------------------
-- Token Kinds
------------------------------------------------------------

/- The kinds of tokens. -/
inductive TokenKind where
  | illegal
  | eof
  | ident
  | int
  | string
  | assign
  | plus
  | minus
  | bang
  | asterisk
  | slash
  | lt
  | gt
  | eq
  | notEq
  | comma
  | semicolon
  | colon
  | lparen
  | rparen
  | lbrace
  | rbrace
  | lbracket
  | rbracket
  | fnWord
  | letWord
  | trueWord
  | falseWord
  | ifWord
  | elseWord
  | returnWord
deriving DecidableEq

namespace TokenKind

/- The name of a kind in messages and listings. -/
def name : TokenKind → String
  | illegal => "ILLEGAL"
  | eof => "EOF"
  | ident => "IDENT"
  | int => "INT"
  | string => "STRING"
  | assign => "ASSIGN"
  | plus => "PLUS"
  | minus => "MINUS"
  | bang => "BANG"
  | asterisk => "ASTERISK"
  | slash => "SLASH"
  | lt => "LT"
  | gt => "GT"
  | eq => "EQ"
  | notEq => "NOT_EQ"
  | comma => "COMMA"
  | semicolon => "SEMICOLON"
  | colon => "COLON"
  | lparen => "LPAREN"
  | rparen => "RPAREN"
  | lbrace => "LBRACE"
  | rbrace => "RBRACE"
  | lbracket => "LBRACKET"
  | rbracket => "RBRACKET"
  | fnWord => "FUNCTION"
  | letWord => "LET"
  | trueWord => "TRUE"
  | falseWord => "FALSE"
  | ifWord => "IF"
  | elseWord => "ELSE"
  | returnWord => "RETURN"

/- Every kind once. -/
def all : List TokenKind :=
  [illegal, eof, ident, int, string, assign, plus, minus,
    bang, asterisk, slash, lt, gt, eq, notEq, comma,
    semicolon, colon, lparen, rparen, lbrace, rbrace,
    lbracket, rbracket, fnWord, letWord, trueWord,
    falseWord, ifWord, elseWord, returnWord]

/- The kind of a given name. -/
def ofName? (text : String) : Option TokenKind :=
  all.find? (·.name == text)

/- A word is a keyword or else an identifier. -/
def ofWord (word : String) : TokenKind :=
  if word = "fn" then fnWord
  else if word = "let" then letWord
  else if word = "true" then trueWord
  else if word = "false" then falseWord
  else if word = "if" then ifWord
  else if word = "else" then elseWord
  else if word = "return" then returnWord
  else ident

/- The kind of an operator or delimiter of one character. -/
def ofMark? : Char → Option TokenKind
  | '=' => some assign
  | '+' => some plus
  | '-' => some minus
  | '!' => some bang
  | '*' => some asterisk
  | '/' => some slash
  | '<' => some lt
  | '>' => some gt
  | ',' => some comma
  | ';' => some semicolon
  | ':' => some colon
  | '(' => some lparen
  | ')' => some rparen
  | '{' => some lbrace
  | '}' => some rbrace
  | '[' => some lbracket
  | ']' => some rbracket
  | _ => none

end TokenKind

------------------------------------------------------------
-- Tokens
------------------------------------------------------------

/-
  A token with its text and the line and column, counted from
  one, where its spelling starts.  The text of a string token
  leaves out the quotes.
-/
structure Token where
  kind : TokenKind
  literal : String
  line : Nat
  column : Nat
deriving DecidableEq

namespace Token

/- One line that shows every part of a token. -/
def description (t : Token) : String :=
  "Tok(" ++ t.kind.name ++ ", " ++ quoted t.literal ++
    ", " ++ toString t.line ++ ":" ++ toString t.column ++
    ")"

end Token

------------------------------------------------------------
-- Character Classes
------------------------------------------------------------

/- The characters of identifiers: ASCII letters and the
   underscore. -/
def isLetter (c : Char) : Bool :=
  ('a' ≤ c && c ≤ 'z') || ('A' ≤ c && c ≤ 'Z') || c == '_'

/- The ten ASCII digits. -/
def isDigit (c : Char) : Bool :=
  '0' ≤ c && c ≤ '9'

end Monkey
