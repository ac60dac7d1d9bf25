import Monkey.Syntax.Node

/-
  Trees with other tokens.

  `Node.mapTokens` changes the tokens that a tree keeps and
  nothing else.  The tokens whose texts are shown again, those
  of literals, of functions, and of `let` and `return`, are told
  apart from all others.

  Main declarations:
    * `Node.mapTokens`
    * `Node.mapTokens_comp`
-/

namespace Monkey

------------------------------------------------------------
-- Other Tokens in a Tree
------------------------------------------------------------

namespace Node

mutual

/- A tree with other tokens: `f` is for those whose texts are
   shown, and `g` for all others. -/
def mapTokens
    (f g : Token → Token) :
    Node → Node
  | .identifier id =>
      .identifier { id with token := g id.token }
  | .integer t n => .integer (f t) n
  | .boolean t b => .boolean (f t) b
  | .string t s => .string (f t) s
  | .prefixOp t operator right =>
      .prefixOp (g t) operator (mapTokens f g right)
  | .infixOp t left operator right =>
      .infixOp (g t) (mapTokens f g left) operator
        (mapTokens f g right)
  | .ifElse t condition consequence none =>
      .ifElse (g t) (mapTokens f g condition)
        (mapTokens f g consequence) none
  | .ifElse t condition consequence (some alternative) =>
      .ifElse (g t) (mapTokens f g condition)
        (mapTokens f g consequence)
        (some (mapTokens f g alternative))
  | .function t params body =>
      .function (f t)
        (params.map fun id => { id with token := g id.token })
        (mapTokens f g body)
  | .call t callee args =>
      .call (g t) (mapTokens f g callee)
        (mapTokensList f g args)
  | .array t elements =>
      .array (g t) (mapTokensList f g elements)
  | .index t left subscript =>
      .index (g t) (mapTokens f g left)
        (mapTokens f g subscript)
  | .hash t pairs => .hash (g t) (mapTokensPairs f g pairs)
  | .letStmt t name value =>
      .letStmt (f t) { name with token := g name.token }
        (mapTokens f g value)
  | .returnStmt t none => .returnStmt (f t) none
  | .returnStmt t (some value) =>
      .returnStmt (f t) (some (mapTokens f g value))
  | .exprStmt t expression =>
      .exprStmt (g t) (mapTokens f g expression)
  | .block t statements =>
      .block (g t) (mapTokensList f g statements)
  | .program statements =>
      .program (mapTokensList f g statements)
  | .foreign => .foreign

/- A list of trees with other tokens. -/
def mapTokensList
    (f g : Token → Token) :
    List Node → List Node
  | [] => []
  | n :: rest => mapTokens f g n :: mapTokensList f g rest

/- Pairs of trees with other tokens. -/
def mapTokensPairs
    (f g : Token → Token) :
    List (Node × Node) → List (Node × Node)
  | [] => []
  | (key, value) :: rest =>
      (mapTokens f g key, mapTokens f g value) ::
        mapTokensPairs f g rest

end

variable {f g : Token → Token}

@[simp] theorem mapTokens_ifElse
    (t : Token)
    (condition consequence : Node)
    (alternative : Option Node) :
    (ifElse t condition consequence alternative).mapTokens f g =
      ifElse (g t) (condition.mapTokens f g)
        (consequence.mapTokens f g)
        (alternative.map (mapTokens f g)) := by
  cases alternative <;> simp [mapTokens]

@[simp] theorem mapTokens_returnStmt
    (t : Token)
    (value : Option Node) :
    (returnStmt t value).mapTokens f g =
      returnStmt (f t) (value.map (mapTokens f g)) := by
  cases value <;> simp [mapTokens]

theorem mapTokensList_eq_map
    (ns : List Node) :
    mapTokensList f g ns = ns.map (mapTokens f g) := by
  induction ns with
  | nil => rfl
  | cons n rest ih => simp [mapTokensList, ih]

theorem mapTokensPairs_eq_map
    (ps : List (Node × Node)) :
    mapTokensPairs f g ps =
      ps.map fun p =>
        (p.1.mapTokens f g, p.2.mapTokens f g) := by
  induction ps with
  | nil => rfl
  | cons p rest ih => simp [mapTokensPairs, ih]

variable {f' g' : Token → Token}

mutual

/- Tokens changed twice are changed by both functions, one after
   the other. -/
theorem mapTokens_comp :
    ∀ n : Node,
      (n.mapTokens f g).mapTokens f' g' =
        n.mapTokens (f' ∘ f) (g' ∘ g)
  | .identifier id => rfl
  | .integer t n => rfl
  | .boolean t b => rfl
  | .string t s => rfl
  | .prefixOp t operator right => by
      simp [mapTokens, mapTokens_comp right]
  | .infixOp t left operator right => by
      simp [mapTokens, mapTokens_comp left,
        mapTokens_comp right]
  | .ifElse t condition consequence none => by
      simp [mapTokens, mapTokens_comp condition,
        mapTokens_comp consequence]
  | .ifElse t condition consequence (some alternative) => by
      simp [mapTokens, mapTokens_comp condition,
        mapTokens_comp consequence, mapTokens_comp alternative]
  | .function t params body => by
      simp [mapTokens, mapTokens_comp body]
  | .call t callee args => by
      simp [mapTokens, mapTokens_comp callee,
        mapTokensList_comp args]
  | .array t elements => by
      simp [mapTokens, mapTokensList_comp elements]
  | .index t left subscript => by
      simp [mapTokens, mapTokens_comp left,
        mapTokens_comp subscript]
  | .hash t pairs => by
      simp [mapTokens, mapTokensPairs_comp pairs]
  | .letStmt t name value => by
      simp [mapTokens, mapTokens_comp value]
  | .returnStmt t none => rfl
  | .returnStmt t (some value) => by
      simp [mapTokens, mapTokens_comp value]
  | .exprStmt t expression => by
      simp [mapTokens, mapTokens_comp expression]
  | .block t statements => by
      simp [mapTokens, mapTokensList_comp statements]
  | .program statements => by
      simp [mapTokens, mapTokensList_comp statements]
  | .foreign => rfl

theorem mapTokensList_comp :
    ∀ ns : List Node,
      mapTokensList f' g' (mapTokensList f g ns) =
        mapTokensList (f' ∘ f) (g' ∘ g) ns
  | [] => rfl
  | n :: rest => by
      simp [mapTokensList, mapTokens_comp n,
        mapTokensList_comp rest]

theorem mapTokensPairs_comp :
    ∀ ps : List (Node × Node),
      mapTokensPairs f' g' (mapTokensPairs f g ps) =
        mapTokensPairs (f' ∘ f) (g' ∘ g) ps
  | [] => rfl
  | (key, value) :: rest => by
      simp [mapTokensPairs, mapTokens_comp key,
        mapTokens_comp value, mapTokensPairs_comp rest]

end

end Node

end Monkey
