import Monkey.Syntax.Node

/-
  Outlines: the shape of a syntax tree without positions.

  `Node.outline?` names each node by its rule and keeps the
  texts that tell programs apart as labelled leaves.
  `Outline.pretty` writes an outline as an indented list.
-/

namespace Monkey

------------------------------------------------------------
-- Outlines
------------------------------------------------------------

/- A labelled text, or a rule with its parts in order. -/
inductive Outline where
  | leaf (label : String) (text : String)
  | tree (rule : String) (children : List Outline)

------------------------------------------------------------
-- Outline of a Node
------------------------------------------------------------

namespace Node

/- The leaf of a name. -/
def nameLeaf (id : Identifier) : Outline :=
  .leaf "IDENT" id.name

mutual

/- The outline of a node with no foreign object in it. -/
def outline? : Node → Option Outline
  | .identifier id => some (.tree "ident" [nameLeaf id])
  | .integer t _ =>
      some (.tree "int" [.leaf "INT" t.literal])
  | .boolean t _ =>
      some (.tree "bool" [.leaf t.kind.name t.literal])
  | .string _ value =>
      some (.tree "string" [.leaf "STRING" value])
  | .prefixOp _ operator right => do
      let r ← outline? right
      some (.tree "prefix" [.leaf "OP" operator, r])
  | .infixOp _ left operator right => do
      let l ← outline? left
      let r ← outline? right
      some (.tree "infix" [l, .leaf "OP" operator, r])
  | .ifElse _ condition consequence none => do
      let c ← outline? condition
      let t ← outline? consequence
      some (.tree "if_expr" [c, t])
  | .ifElse _ condition consequence (some alternative) => do
      let c ← outline? condition
      let t ← outline? consequence
      let e ← outline? alternative
      some (.tree "if_expr" [c, t, e])
  | .function _ params body => do
      let b ← outline? body
      some (.tree "fn"
        [.tree "paramlist" (params.map nameLeaf), b])
  | .call _ callee args => do
      let f ← outline? callee
      let xs ← outlineList? args
      some (.tree "call" [f, .tree "args" xs])
  | .array _ elements => do
      let xs ← outlineList? elements
      some (.tree "array" xs)
  | .index _ left subscript => do
      let l ← outline? left
      let i ← outline? subscript
      some (.tree "index" [l, i])
  | .hash _ pairs => do
      let ps ← outlinePairs? pairs
      some (.tree "hash" ps)
  | .letStmt _ name value => do
      let v ← outline? value
      some (.tree "let_stmt" [nameLeaf name, v])
  | .returnStmt _ none => some (.tree "return_stmt" [])
  | .returnStmt _ (some value) => do
      let v ← outline? value
      some (.tree "return_stmt" [v])
  | .exprStmt _ expression => do
      let e ← outline? expression
      some (.tree "expr_stmt" [e])
  | .block _ statements => do
      let ss ← outlineList? statements
      some (.tree "block" ss)
  | .program statements => do
      let ss ← outlineList? statements
      some (.tree "program" ss)
  | .foreign => none

/- The outlines of a list of nodes. -/
def outlineList? : List Node → Option (List Outline)
  | [] => some []
  | n :: rest => do
      let o ← outline? n
      let os ← outlineList? rest
      some (o :: os)

/- The outlines of the pairs of a hash. -/
def outlinePairs? :
    List (Node × Node) → Option (List Outline)
  | [] => some []
  | (key, value) :: rest => do
      let k ← outline? key
      let v ← outline? value
      let os ← outlinePairs? rest
      some (.tree "pair" [k, v] :: os)

end

end Node

------------------------------------------------------------
-- Indented Form
------------------------------------------------------------

namespace Outline

/- Two spaces for each level. -/
def indent (level : Nat) : String :=
  String.ofList (List.replicate (2 * level) ' ')

mutual

/-
  The lines of an outline at a level: one for a node, and each
  part one level deeper; a rule whose only part is a leaf shares
  its line with it.
-/
def linesAt : Nat → Outline → List String
  | level, .leaf _ text => [indent level ++ text ++ "\n"]
  | level, .tree rule [.leaf _ text] =>
      [indent level ++ rule ++ "\t" ++ text ++ "\n"]
  | level, .tree rule children =>
      (indent level ++ rule ++ "\n") ::
        listLinesAt (level + 1) children

/- The lines of the parts of a rule, one after the other. -/
def listLinesAt : Nat → List Outline → List String
  | _, [] => []
  | level, o :: rest =>
      linesAt level o ++ listLinesAt level rest

end

/- The indented form of an outline. -/
def pretty (o : Outline) : String :=
  String.join (o.linesAt 0)

end Outline

end Monkey
