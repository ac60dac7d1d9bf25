import Monkey.Parse.Precedence
import Monkey.Parse.Stream
import Monkey.Platform
import Monkey.Syntax.Node
import Monkey.Text.Decimal

/-
  The grammar: from tokens to syntax trees.

  Each rule starts at its first token and ends at its last one.
  The rules take the parser for nested expressions as a
  parameter; `expression` closes the circle, one level of
  nesting at a time.  `parse` reads a whole program.

  An expression is a first part, chosen by its first token, and
  then as many operators, calls, and indexings as bind more
  tightly than its surroundings ask for.
-/

namespace Monkey

namespace Parse

variable (expr : Precedence → Parse Node)

------------------------------------------------------------
-- Statements
------------------------------------------------------------

/- The identifier at the current token. -/
def identifierHere : Parse Identifier := do
  let t ← current
  return { token := t, name := t.literal }

/- `let` name `=` expression, and an optional semicolon. -/
def letStatement : Parse Node := do
  let word ← current
  expect .ident
  let name ← identifierHere
  expect .assign
  advance
  let value ← expr .lowest
  acceptOptional .semicolon
  return .letStmt word name value

/-
  `return` with an optional expression and an optional
  semicolon.  Without an expression it ends on `return` itself
  or on the semicolon.
-/
def returnStatement : Parse Node := do
  let word ← current
  let following ← peek
  if following.kind = .semicolon then
    advance
    return .returnStmt word none
  else if following.kind = .rbrace then
    return .returnStmt word none
  else if following.kind = .eof then
    return .returnStmt word none
  else
    advance
    let value ← expr .lowest
    acceptOptional .semicolon
    return .returnStmt word (some value)

/- An expression and an optional semicolon. -/
def expressionStatement : Parse Node := do
  let first ← current
  let value ← expr .lowest
  acceptOptional .semicolon
  return .exprStmt first value

/- A statement, told by its first token. -/
def statement : Parse Node := do
  match (← current).kind with
  | .letWord => letStatement expr
  | .returnWord => returnStatement expr
  | _ => expressionStatement expr

/- The statements of a block, up to its closing brace. -/
def blockStatements : Nat → Parse (List Node)
  | 0 => throw .tooDeep
  | n + 1 => do
      let t ← current
      if t.kind = .rbrace then
        return []
      else if t.kind = .eof then
        fail (.unexpected .rbrace .eof) t
      else
        let first ← statement expr
        advance
        let more ← blockStatements n
        return first :: more

/- Statements between braces. -/
def block : Parse Node := do
  let brace ← current
  advance
  let statements ← blockStatements expr (← rounds)
  return .block brace statements

/- The statements of a program, up to the end of the text. -/
def programStatements : Nat → Parse (List Node)
  | 0 => throw .tooDeep
  | n + 1 => do
      let t ← current
      if t.kind = .eof then
        return []
      else
        let first ← statement expr
        advance
        let more ← programStatements n
        return first :: more

/- A whole program. -/
def program : Parse Node := do
  let statements ← programStatements expr (← rounds)
  return .program statements

------------------------------------------------------------
-- Lists of Names and Expressions
------------------------------------------------------------

/- Further parameters, each after a comma. -/
def moreParameters : Nat → Parse (List Identifier)
  | 0 => throw .tooDeep
  | n + 1 => do
      if (← peek).kind = .comma then
        advance
        expect .ident
        let name ← identifierHere
        let more ← moreParameters n
        return name :: more
      else
        return []

/- Parameter names between parentheses. -/
def parameters : Parse (List Identifier) := do
  if (← peek).kind = .rparen then
    advance
    return []
  else
    expect .ident
    let first ← identifierHere
    let more ← moreParameters (← rounds)
    expect .rparen
    return first :: more

/- Further expressions, each after a comma. -/
def moreExpressions : Nat → Parse (List Node)
  | 0 => throw .tooDeep
  | n + 1 => do
      if (← peek).kind = .comma then
        advance
        advance
        let item ← expr .lowest
        let more ← moreExpressions n
        return item :: more
      else
        return []

/- Expressions between an opening token and a closing one. -/
def expressionList (close : TokenKind) :
    Parse (List Node) := do
  if (← peek).kind = close then
    advance
    return []
  else
    advance
    let first ← expr .lowest
    let more ← moreExpressions expr (← rounds)
    expect close
    return first :: more

------------------------------------------------------------
-- First Parts of Expressions
------------------------------------------------------------

/- An integer literal. -/
def integerLiteral : Parse Node := do
  let t ← current
  match readInteger? t.literal with
  | some n => return .integer t n
  | none => fail (.longInteger t.literal) t

/- A prefix operator and its operand. -/
def prefixExpression : Parse Node := do
  let t ← current
  advance
  let right ← expr .unary
  return .prefixOp t t.literal right

/- An expression between parentheses, which leave no trace. -/
def groupedExpression : Parse Node := do
  advance
  let inner ← expr .lowest
  expect .rparen
  return inner

/- `else` and a block, where there is one. -/
def alternative : Parse (Option Node) := do
  if (← peek).kind = .elseWord then
    advance
    expect .lbrace
    let branch ← block expr
    return some branch
  else
    return none

/- `if`, a condition, a block, and an optional alternative. -/
def ifExpression : Parse Node := do
  let word ← current
  expect .lparen
  advance
  let condition ← expr .lowest
  expect .rparen
  expect .lbrace
  let consequence ← block expr
  let otherwise ← alternative expr
  return .ifElse word condition consequence otherwise

/- `fn`, parameters, and a block. -/
def functionLiteral : Parse Node := do
  let word ← current
  expect .lparen
  let params ← parameters
  expect .lbrace
  let body ← block expr
  return .function word params body

/- Expressions between brackets. -/
def arrayLiteral : Parse Node := do
  let bracket ← current
  let elements ← expressionList expr .rbracket
  return .array bracket elements

/- The pairs of a hash end at the closing brace, or for want
   of tokens. -/
def atPairsEnd : Parse Bool := do
  let t ← peek
  return t.kind == .rbrace || t.kind == .eof

/- The pairs of a hash, with commas between them and an
   optional one after the last. -/
def hashPairs : Nat → Parse (List (Node × Node))
  | 0 => throw .tooDeep
  | n + 1 => do
      if ← atPairsEnd then
        return []
      else
        advance
        let key ← expr .lowest
        expect .colon
        advance
        let value ← expr .lowest
        if ← atPairsEnd then
          pure ()
        else
          expect .comma
        let more ← hashPairs n
        return (key, value) :: more

/- Pairs between braces. -/
def hashLiteral : Parse Node := do
  let brace ← current
  let pairs ← hashPairs expr (← rounds)
  expect .rbrace
  return .hash brace pairs

/- The first part of an expression, told by its first token. -/
def firstPart : Parse Node := do
  let t ← current
  match t.kind with
  | .ident =>
      return .identifier { token := t, name := t.literal }
  | .int => integerLiteral
  | .string => return .string t t.literal
  | .trueWord => return .boolean t true
  | .falseWord => return .boolean t false
  | .bang => prefixExpression expr
  | .minus => prefixExpression expr
  | .lparen => groupedExpression expr
  | .ifWord => ifExpression expr
  | .fnWord => functionLiteral expr
  | .lbracket => arrayLiteral expr
  | .lbrace => hashLiteral expr
  | kind => fail (.noExpression kind) t

------------------------------------------------------------
-- Operators, Calls, and Indexings
------------------------------------------------------------

/- An infix operator, with its left part at hand. -/
def infixExpression (left : Node) : Parse Node := do
  let t ← current
  advance
  let right ← expr t.kind.precedence
  return .infixOp t left t.literal right

/- A call, with the callee at hand. -/
def callExpression (callee : Node) : Parse Node := do
  let paren ← current
  let args ← expressionList expr .rparen
  return .call paren callee args

/- An indexing, with the indexed expression at hand. -/
def indexExpression (left : Node) : Parse Node := do
  let bracket ← current
  advance
  let subscript ← expr .lowest
  expect .rbracket
  return .index bracket left subscript

/- What the current token makes of the expression before it. -/
def continuation (left : Node) : Parse Node := do
  match (← current).kind with
  | .lparen => callExpression expr left
  | .lbracket => indexExpression expr left
  | _ => infixExpression expr left

/-
  Extend an expression while the next token binds more tightly
  than `p`.  Since an equal strength ends it, operators of one
  level group to the left.
-/
def continuations (p : Precedence) : Nat → Node → Parse Node
  | 0, _ => throw .tooDeep
  | n + 1, left => do
      if p.rank < (← peek).kind.precedence.rank then
        advance
        let extended ← continuation expr left
        continuations p n extended
      else
        return left

------------------------------------------------------------
-- Expressions
------------------------------------------------------------

/- An expression whose nested ones are read by `expr`. -/
def expressionStep (p : Precedence) : Parse Node := do
  let left ← firstPart expr
  continuations expr p (← rounds) left

/-
  An expression with at most a number of levels of nesting, up
  to a token that binds no more tightly than asked.
-/
def expression : Nat → Precedence → Parse Node
  | 0, _ => throw .tooDeep
  | depth + 1, p => expressionStep (expression depth) p

end Parse

------------------------------------------------------------
-- Programs
------------------------------------------------------------

/- The program that a text spells, within a nesting limit. -/
def parseWithin
    (limit : Nat)
    (source : String) :
    Except ParseFailure Node :=
  match Parse.program (Parse.expression limit)
      (.ofText source) with
  | .ok tree _ => .ok tree
  | .error failure _ => .error failure

/- The program that a text spells. -/
def parse
    [Platform]
    (source : String) :
    Except ParseFailure Node :=
  parseWithin Platform.nestingLimit source

end Monkey
