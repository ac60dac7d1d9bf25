import Monkey.Syntax.Node
import Monkey.Value.Failure

/-
  Source-like text of a syntax tree.

  `Node.renderWithin` puts parentheses around every prefix,
  infix, and index expression, so the text shows how operators
  were bound.  Statements follow each other without a separator.
  The rule for each form takes the rendering of parts as a
  parameter; `renderWithin` closes the circle, one level of
  recursion at a time, and fails where there is none left.
  `Node.tokenLiteral?` is the text of a node's own token.
-/

namespace Monkey

namespace Node

------------------------------------------------------------
-- Token Text
------------------------------------------------------------

/-
  The text of the token of a node.  A program has that of its
  first statement, or none of its own when it is empty; a
  foreign object has no answer.
-/
def tokenLiteral? : Node → Option String
  | .identifier id => some id.token.literal
  | .integer t _ => some t.literal
  | .boolean t _ => some t.literal
  | .string t _ => some t.literal
  | .prefixOp t _ _ => some t.literal
  | .infixOp t _ _ _ => some t.literal
  | .ifElse t _ _ _ => some t.literal
  | .function t _ _ => some t.literal
  | .call t _ _ => some t.literal
  | .array t _ => some t.literal
  | .index t _ _ => some t.literal
  | .hash t _ => some t.literal
  | .letStmt t _ _ => some t.literal
  | .returnStmt t _ => some t.literal
  | .exprStmt t _ => some t.literal
  | .block t _ => some t.literal
  | .program [] => some ""
  | .program (first :: _) => first.tokenLiteral?
  | .foreign => none

------------------------------------------------------------
-- Rendering
------------------------------------------------------------

/- Parameter names between commas. -/
def renderParams (params : List Identifier) : String :=
  String.intercalate ", " (params.map Identifier.name)

section

variable {M : Type → Type} [Monad M]
variable (render : Node → M String)

/- The text of a pair of a hash. -/
@[specialize]
def renderPair (pair : Node × Node) : M String := do
  return (← render pair.1) ++ ":" ++ (← render pair.2)

/- The source-like text of a node whose parts are rendered by
   `render`. -/
@[specialize]
def renderBy (n : Node) : M String :=
  match n with
  | .identifier id => return id.name
  | .integer t _ => return t.literal
  | .boolean t _ => return t.literal
  | .string t _ => return t.literal
  | .prefixOp _ operator right => do
      return "(" ++ operator ++ (← render right) ++ ")"
  | .infixOp _ left operator right => do
      return "(" ++ (← render left) ++ " " ++ operator ++
        " " ++ (← render right) ++ ")"
  | .ifElse _ condition consequence none => do
      return "if" ++ (← render condition) ++ " " ++
        (← render consequence)
  | .ifElse _ condition consequence (some alternative) => do
      return "if" ++ (← render condition) ++ " " ++
        (← render consequence) ++ "else " ++
        (← render alternative)
  | .function t params body => do
      return t.literal ++ "(" ++ renderParams params ++ ") " ++
        (← render body)
  | .call _ callee args => do
      return (← render callee) ++ "(" ++
        String.intercalate "," (← args.mapM render) ++ ")"
  | .array _ elements => do
      return "[" ++
        String.intercalate ", " (← elements.mapM render) ++ "]"
  | .index _ left subscript => do
      return "(" ++ (← render left) ++ "[" ++
        (← render subscript) ++ "])"
  | .hash _ pairs => do
      return "\x7b" ++
        String.intercalate ", "
          (← pairs.mapM (renderPair render)) ++ "\x7d"
  | .letStmt t name value => do
      return t.literal ++ " " ++ name.name ++ " = " ++
        (← render value) ++ ";"
  | .returnStmt t none => return t.literal ++ ";"
  | .returnStmt t (some value) => do
      return t.literal ++ " " ++ (← render value) ++ ";"
  | .exprStmt _ expression => render expression
  | .block _ statements => do
      return String.join (← statements.mapM render)
  | .program statements => do
      return String.join (← statements.mapM render)
  | .foreign => return "<unknown>"

end

/- The source-like text of a node with at most a number of levels
   of recursion. -/
def renderWithin : Nat → Node → Except Failure String
  | 0, _ => .error .tooDeep
  | levels + 1, n => n.renderBy (renderWithin levels)

end Node

end Monkey
