import Monkey.Token.Basic

/-
  Syntax trees.

  One type `Node` covers expressions, statements, blocks, and
  whole programs, so that every traversal is one function.  Each
  node but `program` keeps the token that it starts with or, for
  an operator, call, or index, the token between its parts.
-/

namespace Monkey

------------------------------------------------------------
-- Nodes
------------------------------------------------------------

/- A name where it is written. -/
structure Identifier where
  token : Token
  name : String
deriving DecidableEq

/-
  The nodes of a syntax tree.  `foreign` stands for an object
  that is no part of the language; the parser builds none.
-/
inductive Node where
  | identifier (id : Identifier)
  | integer (token : Token) (value : Int)
  | boolean (token : Token) (value : Bool)
  | string (token : Token) (value : String)
  | prefixOp
      (token : Token)
      (operator : String)
      (right : Node)
  | infixOp
      (token : Token)
      (left : Node)
      (operator : String)
      (right : Node)
  | ifElse
      (token : Token)
      (condition : Node)
      (consequence : Node)
      (alternative : Option Node)
  | function
      (token : Token)
      (params : List Identifier)
      (body : Node)
  | call
      (token : Token)
      (callee : Node)
      (args : List Node)
  | array (token : Token) (elements : List Node)
  | index (token : Token) (left : Node) (subscript : Node)
  | hash (token : Token) (pairs : List (Node × Node))
  | letStmt
      (token : Token)
      (name : Identifier)
      (value : Node)
  | returnStmt (token : Token) (value : Option Node)
  | exprStmt (token : Token) (expression : Node)
  | block (token : Token) (statements : List Node)
  | program (statements : List Node)
  | foreign

end Monkey
