import Monkey.Proofs.Syntax.MapTokens

/-
  Trees with other names.

  `Node.mapNames` changes the names of a tree, wherever they are
  written, together with its tokens, and keeps everything else.

  Main declarations:
    * `Node.mapNames`
    * `Node.mapNames_comp`
    * `Node.mapTokens_eq_mapNames`
-/

namespace Monkey

namespace Node

------------------------------------------------------------
-- Other Names in a Tree
------------------------------------------------------------

mutual

/- A tree with other names and, as in `mapTokens`, with other
   tokens. -/
def mapNames
    (names : Identifier → Identifier)
    (f g : Token → Token) :
    Node → Node
  | .identifier id => .identifier (names id)
  | .integer t n => .integer (f t) n
  | .boolean t b => .boolean (f t) b
  | .string t s => .string (f t) s
  | .prefixOp t operator right =>
      .prefixOp (g t) operator (mapNames names f g right)
  | .infixOp t left operator right =>
      .infixOp (g t) (mapNames names f g left) operator
        (mapNames names f g right)
  | .ifElse t condition consequence none =>
      .ifElse (g t) (mapNames names f g condition)
        (mapNames names f g consequence) none
  | .ifElse t condition consequence (some alternative) =>
      .ifElse (g t) (mapNames names f g condition)
        (mapNames names f g consequence)
        (some (mapNames names f g alternative))
  | .function t params body =>
      .function (f t) (params.map names)
        (mapNames names f g body)
  | .call t callee args =>
      .call (g t) (mapNames names f g callee)
        (mapNamesList names f g args)
  | .array t elements =>
      .array (g t) (mapNamesList names f g elements)
  | .index t left subscript =>
      .index (g t) (mapNames names f g left)
        (mapNames names f g subscript)
  | .hash t pairs =>
      .hash (g t) (mapNamesPairs names f g pairs)
  | .letStmt t name value =>
      .letStmt (f t) (names name) (mapNames names f g value)
  | .returnStmt t none => .returnStmt (f t) none
  | .returnStmt t (some value) =>
      .returnStmt (f t) (some (mapNames names f g value))
  | .exprStmt t expression =>
      .exprStmt (g t) (mapNames names f g expression)
  | .block t statements =>
      .block (g t) (mapNamesList names f g statements)
  | .program statements =>
      .program (mapNamesList names f g statements)
  | .foreign => .foreign

/- A list of trees with other names. -/
def mapNamesList
    (names : Identifier → Identifier)
    (f g : Token → Token) :
    List Node → List Node
  | [] => []
  | n :: rest =>
      mapNames names f g n :: mapNamesList names f g rest

/- Pairs of trees with other names. -/
def mapNamesPairs
    (names : Identifier → Identifier)
    (f g : Token → Token) :
    List (Node × Node) → List (Node × Node)
  | [] => []
  | (key, value) :: rest =>
      (mapNames names f g key, mapNames names f g value) ::
        mapNamesPairs names f g rest

end

variable {names : Identifier → Identifier}
variable {f g : Token → Token}

@[simp] theorem mapNames_ifElse
    (t : Token)
    (condition consequence : Node)
    (alternative : Option Node) :
    (ifElse t condition consequence alternative).mapNames
        names f g =
      ifElse (g t) (condition.mapNames names f g)
        (consequence.mapNames names f g)
        (alternative.map (mapNames names f g)) := by
  cases alternative <;> simp [mapNames]

@[simp] theorem mapNames_returnStmt
    (t : Token)
    (value : Option Node) :
    (returnStmt t value).mapNames names f g =
      returnStmt (f t) (value.map (mapNames names f g)) := by
  cases value <;> simp [mapNames]

theorem mapNamesList_eq_map
    (ns : List Node) :
    mapNamesList names f g ns =
      ns.map (mapNames names f g) := by
  induction ns with
  | nil => rfl
  | cons n rest ih => simp [mapNamesList, ih]

theorem mapNamesPairs_eq_map
    (ps : List (Node × Node)) :
    mapNamesPairs names f g ps =
      ps.map fun p =>
        (p.1.mapNames names f g, p.2.mapNames names f g) := by
  induction ps with
  | nil => rfl
  | cons p rest ih => simp [mapNamesPairs, ih]

------------------------------------------------------------
-- Changes One after the Other
------------------------------------------------------------

variable {names' : Identifier → Identifier}
variable {f' g' : Token → Token}

mutual

/- Names changed twice are changed by both functions, one after
   the other. -/
theorem mapNames_comp :
    ∀ n : Node,
      (n.mapNames names f g).mapNames names' f' g' =
        n.mapNames (names' ∘ names) (f' ∘ f) (g' ∘ g)
  | .identifier id => rfl
  | .integer t n => rfl
  | .boolean t b => rfl
  | .string t s => rfl
  | .prefixOp t operator right => by
      simp [mapNames, mapNames_comp right]
  | .infixOp t left operator right => by
      simp [mapNames, mapNames_comp left, mapNames_comp right]
  | .ifElse t condition consequence none => by
      simp [mapNames, mapNames_comp condition,
        mapNames_comp consequence]
  | .ifElse t condition consequence (some alternative) => by
      simp [mapNames, mapNames_comp condition,
        mapNames_comp consequence, mapNames_comp alternative]
  | .function t params body => by
      simp [mapNames, mapNames_comp body]
  | .call t callee args => by
      simp [mapNames, mapNames_comp callee,
        mapNamesList_comp args]
  | .array t elements => by
      simp [mapNames, mapNamesList_comp elements]
  | .index t left subscript => by
      simp [mapNames, mapNames_comp left,
        mapNames_comp subscript]
  | .hash t pairs => by
      simp [mapNames, mapNamesPairs_comp pairs]
  | .letStmt t name value => by
      simp [mapNames, mapNames_comp value]
  | .returnStmt t none => rfl
  | .returnStmt t (some value) => by
      simp [mapNames, mapNames_comp value]
  | .exprStmt t expression => by
      simp [mapNames, mapNames_comp expression]
  | .block t statements => by
      simp [mapNames, mapNamesList_comp statements]
  | .program statements => by
      simp [mapNames, mapNamesList_comp statements]
  | .foreign => rfl

theorem mapNamesList_comp :
    ∀ ns : List Node,
      mapNamesList names' f' g' (mapNamesList names f g ns) =
        mapNamesList (names' ∘ names) (f' ∘ f) (g' ∘ g) ns
  | [] => rfl
  | n :: rest => by
      simp [mapNamesList, mapNames_comp n,
        mapNamesList_comp rest]

theorem mapNamesPairs_comp :
    ∀ ps : List (Node × Node),
      mapNamesPairs names' f' g'
          (mapNamesPairs names f g ps) =
        mapNamesPairs (names' ∘ names) (f' ∘ f) (g' ∘ g) ps
  | [] => rfl
  | (key, value) :: rest => by
      simp [mapNamesPairs, mapNames_comp key,
        mapNames_comp value, mapNamesPairs_comp rest]

end

mutual

/- Names and tokens that stay the same leave a tree the same. -/
theorem mapNames_id :
    ∀ n : Node, n.mapNames id id id = n
  | .identifier name => rfl
  | .integer t n => rfl
  | .boolean t b => rfl
  | .string t s => rfl
  | .prefixOp t operator right => by
      simp [mapNames, mapNames_id right]
  | .infixOp t left operator right => by
      simp [mapNames, mapNames_id left, mapNames_id right]
  | .ifElse t condition consequence none => by
      simp [mapNames, mapNames_id condition,
        mapNames_id consequence]
  | .ifElse t condition consequence (some alternative) => by
      simp [mapNames, mapNames_id condition,
        mapNames_id consequence, mapNames_id alternative]
  | .function t params body => by
      simp [mapNames, mapNames_id body]
  | .call t callee args => by
      simp [mapNames, mapNames_id callee, mapNamesList_id args]
  | .array t elements => by
      simp [mapNames, mapNamesList_id elements]
  | .index t left subscript => by
      simp [mapNames, mapNames_id left, mapNames_id subscript]
  | .hash t pairs => by
      simp [mapNames, mapNamesPairs_id pairs]
  | .letStmt t name value => by
      simp [mapNames, mapNames_id value]
  | .returnStmt t none => rfl
  | .returnStmt t (some value) => by
      simp [mapNames, mapNames_id value]
  | .exprStmt t expression => by
      simp [mapNames, mapNames_id expression]
  | .block t statements => by
      simp [mapNames, mapNamesList_id statements]
  | .program statements => by
      simp [mapNames, mapNamesList_id statements]
  | .foreign => rfl

theorem mapNamesList_id :
    ∀ ns : List Node, mapNamesList id id id ns = ns
  | [] => rfl
  | n :: rest => by
      simp [mapNamesList, mapNames_id n, mapNamesList_id rest]

theorem mapNamesPairs_id :
    ∀ ps : List (Node × Node), mapNamesPairs id id id ps = ps
  | [] => rfl
  | (key, value) :: rest => by
      simp [mapNamesPairs, mapNames_id key, mapNames_id value,
        mapNamesPairs_id rest]

end

mutual

/- To change tokens is to change no name but for its token. -/
theorem mapTokens_eq_mapNames :
    ∀ n : Node,
      n.mapTokens f g =
        n.mapNames
          (fun id => { id with token := g id.token }) f g
  | .identifier id => rfl
  | .integer t n => rfl
  | .boolean t b => rfl
  | .string t s => rfl
  | .prefixOp t operator right => by
      simp [mapTokens, mapNames, mapTokens_eq_mapNames right]
  | .infixOp t left operator right => by
      simp [mapTokens, mapNames, mapTokens_eq_mapNames left,
        mapTokens_eq_mapNames right]
  | .ifElse t condition consequence none => by
      simp [mapTokens, mapNames,
        mapTokens_eq_mapNames condition,
        mapTokens_eq_mapNames consequence]
  | .ifElse t condition consequence (some alternative) => by
      simp [mapTokens, mapNames,
        mapTokens_eq_mapNames condition,
        mapTokens_eq_mapNames consequence,
        mapTokens_eq_mapNames alternative]
  | .function t params body => by
      simp [mapTokens, mapNames, mapTokens_eq_mapNames body]
  | .call t callee args => by
      simp [mapTokens, mapNames, mapTokens_eq_mapNames callee,
        mapTokensList_eq_mapNamesList args]
  | .array t elements => by
      simp [mapTokens, mapNames,
        mapTokensList_eq_mapNamesList elements]
  | .index t left subscript => by
      simp [mapTokens, mapNames, mapTokens_eq_mapNames left,
        mapTokens_eq_mapNames subscript]
  | .hash t pairs => by
      simp [mapTokens, mapNames,
        mapTokensPairs_eq_mapNamesPairs pairs]
  | .letStmt t name value => by
      simp [mapTokens, mapNames, mapTokens_eq_mapNames value]
  | .returnStmt t none => rfl
  | .returnStmt t (some value) => by
      simp [mapTokens, mapNames, mapTokens_eq_mapNames value]
  | .exprStmt t expression => by
      simp [mapTokens, mapNames,
        mapTokens_eq_mapNames expression]
  | .block t statements => by
      simp [mapTokens, mapNames,
        mapTokensList_eq_mapNamesList statements]
  | .program statements => by
      simp [mapTokens, mapNames,
        mapTokensList_eq_mapNamesList statements]
  | .foreign => rfl

theorem mapTokensList_eq_mapNamesList :
    ∀ ns : List Node,
      mapTokensList f g ns =
        mapNamesList
          (fun id => { id with token := g id.token }) f g ns
  | [] => rfl
  | n :: rest => by
      simp [mapTokensList, mapNamesList,
        mapTokens_eq_mapNames n,
        mapTokensList_eq_mapNamesList rest]

theorem mapTokensPairs_eq_mapNamesPairs :
    ∀ ps : List (Node × Node),
      mapTokensPairs f g ps =
        mapNamesPairs
          (fun id => { id with token := g id.token }) f g ps
  | [] => rfl
  | (key, value) :: rest => by
      simp [mapTokensPairs, mapNamesPairs,
        mapTokens_eq_mapNames key,
        mapTokens_eq_mapNames value,
        mapTokensPairs_eq_mapNamesPairs rest]

end

end Node

end Monkey
