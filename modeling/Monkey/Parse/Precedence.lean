import Monkey.Token.Basic

/-
  Binding strength of operators.

  A token that can follow a complete expression has the strength
  with which it claims that expression as its left part.  Every
  other token has the lowest strength and claims nothing.
-/

namespace Monkey

------------------------------------------------------------
-- Precedence
------------------------------------------------------------

/- The levels of binding strength, weakest first. -/
inductive Precedence where
  | lowest
  | equals
  | lessGreater
  | sum
  | product
  | unary
  | call
deriving DecidableEq

namespace Precedence

/- The place of a level, from one. -/
def rank : Precedence → Nat
  | lowest => 1
  | equals => 2
  | lessGreater => 3
  | sum => 4
  | product => 5
  | unary => 6
  | call => 7

end Precedence

/- The strength with which a token claims what precedes it. -/
def TokenKind.precedence : TokenKind → Precedence
  | .eq | .notEq => .equals
  | .lt | .gt => .lessGreater
  | .plus | .minus => .sum
  | .slash | .asterisk => .product
  | .lparen | .lbracket => .call
  | _ => .lowest

end Monkey
