import Monkey.Proofs.Syntax.MapNames
import Monkey.Syntax.Render

/-
  The text of a tree and the levels that it takes.

  `Node.render` is the text of a tree without regard to levels,
  and `Node.height` counts the nodes on the longest way down.
  With as many levels as a tree is high its text comes out, and
  with fewer nothing else can but that the tree is too deep.
  Names and tokens have no part in the height.

  Main declarations:
    * `Node.render`
    * `Node.height`
    * `Node.renderWithin_eq`
    * `Node.height_mapNames`
-/

namespace Monkey

namespace Node

------------------------------------------------------------
-- Texts
------------------------------------------------------------

mutual

/- The text of a node, however high it is. -/
def render : Node → String
  | .identifier id => id.name
  | .integer t _ => t.literal
  | .boolean t _ => t.literal
  | .string t _ => t.literal
  | .prefixOp _ operator right =>
      "(" ++ operator ++ render right ++ ")"
  | .infixOp _ left operator right =>
      "(" ++ render left ++ " " ++ operator ++ " " ++
        render right ++ ")"
  | .ifElse _ condition consequence none =>
      "if" ++ render condition ++ " " ++ render consequence
  | .ifElse _ condition consequence (some alternative) =>
      "if" ++ render condition ++ " " ++
        render consequence ++ "else " ++ render alternative
  | .function t params body =>
      t.literal ++ "(" ++ renderParams params ++ ") " ++
        render body
  | .call _ callee args =>
      render callee ++ "(" ++
        String.intercalate "," (renderList args) ++ ")"
  | .array _ elements =>
      "[" ++ String.intercalate ", " (renderList elements) ++
        "]"
  | .index _ left subscript =>
      "(" ++ render left ++ "[" ++ render subscript ++ "])"
  | .hash _ pairs =>
      "\x7b" ++ String.intercalate ", " (renderPairs pairs) ++
        "\x7d"
  | .letStmt t name value =>
      t.literal ++ " " ++ name.name ++ " = " ++
        render value ++ ";"
  | .returnStmt t none => t.literal ++ ";"
  | .returnStmt t (some value) =>
      t.literal ++ " " ++ render value ++ ";"
  | .exprStmt _ expression => render expression
  | .block _ statements => String.join (renderList statements)
  | .program statements => String.join (renderList statements)
  | .foreign => "<unknown>"

/- The texts of a list of nodes. -/
def renderList : List Node → List String
  | [] => []
  | n :: rest => render n :: renderList rest

/- The texts of the pairs of a hash. -/
def renderPairs : List (Node × Node) → List String
  | [] => []
  | (key, value) :: rest =>
      (render key ++ ":" ++ render value) ::
        renderPairs rest

end

------------------------------------------------------------
-- Heights
------------------------------------------------------------

mutual

/- The nodes on the longest way down. -/
def height : Node → Nat
  | .identifier _ => 1
  | .integer _ _ => 1
  | .boolean _ _ => 1
  | .string _ _ => 1
  | .prefixOp _ _ right => height right + 1
  | .infixOp _ left _ right =>
      max (height left) (height right) + 1
  | .ifElse _ condition consequence none =>
      max (height condition) (height consequence) + 1
  | .ifElse _ condition consequence (some alternative) =>
      max (max (height condition) (height consequence))
        (height alternative) + 1
  | .function _ _ body => height body + 1
  | .call _ callee args =>
      max (height callee) (heightList args) + 1
  | .array _ elements => heightList elements + 1
  | .index _ left subscript =>
      max (height left) (height subscript) + 1
  | .hash _ pairs => heightPairs pairs + 1
  | .letStmt _ _ value => height value + 1
  | .returnStmt _ none => 1
  | .returnStmt _ (some value) => height value + 1
  | .exprStmt _ expression => height expression + 1
  | .block _ statements => heightList statements + 1
  | .program statements => heightList statements + 1
  | .foreign => 1

/- The greatest height in a list of nodes. -/
def heightList : List Node → Nat
  | [] => 0
  | n :: rest => max (height n) (heightList rest)

/- The greatest height in the pairs of a hash. -/
def heightPairs : List (Node × Node) → Nat
  | [] => 0
  | (key, value) :: rest =>
      max (max (height key) (height value)) (heightPairs rest)

end

/- Every tree has a level of its own. -/
theorem height_pos (n : Node) : 0 < n.height := by
  cases n with
  | ifElse _ _ _ alternative =>
      cases alternative <;> simp [height]
  | returnStmt _ value => cases value <;> simp [height]
  | _ => simp [height]

variable {names : Identifier → Identifier}
variable {f g : Token → Token}

mutual

/- A tree with other names and tokens is as high. -/
@[simp] theorem height_mapNames :
    ∀ n : Node, (n.mapNames names f g).height = n.height
  | .identifier id => rfl
  | .integer t n => rfl
  | .boolean t b => rfl
  | .string t s => rfl
  | .prefixOp t operator right => by
      simp [mapNames, height, height_mapNames right]
  | .infixOp t left operator right => by
      simp [mapNames, height, height_mapNames left,
        height_mapNames right]
  | .ifElse t condition consequence none => by
      simp [mapNames, height, height_mapNames condition,
        height_mapNames consequence]
  | .ifElse t condition consequence (some alternative) => by
      simp [mapNames, height, height_mapNames condition,
        height_mapNames consequence,
        height_mapNames alternative]
  | .function t params body => by
      simp [mapNames, height, height_mapNames body]
  | .call t callee args => by
      simp [mapNames, height, height_mapNames callee,
        heightList_mapNames args]
  | .array t elements => by
      simp [mapNames, height, heightList_mapNames elements]
  | .index t left subscript => by
      simp [mapNames, height, height_mapNames left,
        height_mapNames subscript]
  | .hash t pairs => by
      simp [mapNames, height, heightPairs_mapNames pairs]
  | .letStmt t name value => by
      simp [mapNames, height, height_mapNames value]
  | .returnStmt t none => rfl
  | .returnStmt t (some value) => by
      simp [mapNames, height, height_mapNames value]
  | .exprStmt t expression => by
      simp [mapNames, height, height_mapNames expression]
  | .block t statements => by
      simp [mapNames, height, heightList_mapNames statements]
  | .program statements => by
      simp [mapNames, height, heightList_mapNames statements]
  | .foreign => rfl

theorem heightList_mapNames :
    ∀ ns : List Node,
      heightList (mapNamesList names f g ns) = heightList ns
  | [] => rfl
  | n :: rest => by
      simp [mapNamesList, heightList, height_mapNames n,
        heightList_mapNames rest]

theorem heightPairs_mapNames :
    ∀ ps : List (Node × Node),
      heightPairs (mapNamesPairs names f g ps) =
        heightPairs ps
  | [] => rfl
  | (key, value) :: rest => by
      simp [mapNamesPairs, heightPairs, height_mapNames key,
        height_mapNames value, heightPairs_mapNames rest]

end

/- A tree with other tokens is as high. -/
@[simp] theorem height_mapTokens
    (n : Node) :
    (n.mapTokens f g).height = n.height := by
  rw [mapTokens_eq_mapNames, height_mapNames]

------------------------------------------------------------
-- Texts Within Levels
------------------------------------------------------------

section

variable {α β : Type}
variable {needed more levels : Nat}

/- A result where there are enough levels. -/
def ifEnough
    (needed : Nat)
    (levels : Nat)
    (a : α) :
    Except Failure α :=
  if needed ≤ levels then .ok a else .error .tooDeep

theorem ifEnough_pure
    (a : α)
    (f : α → β) :
    (ifEnough needed levels a >>= fun a => pure (f a)) =
      ifEnough needed levels (f a) := by
  unfold ifEnough
  split <;> rfl

/- Two results need the greater number of levels. -/
theorem ifEnough_bind
    (a : α)
    (f : α → β) :
    (ifEnough needed levels a >>= fun a =>
        ifEnough more levels (f a)) =
      ifEnough (max needed more) levels (f a) := by
  unfold ifEnough
  by_cases hFirst : needed ≤ levels
  · by_cases hSecond : more ≤ levels
    · rw [if_pos hFirst, if_pos (Nat.max_le.mpr ⟨hFirst, hSecond⟩)]
      exact if_pos hSecond
    · rw [if_pos hFirst,
        if_neg fun h => hSecond (Nat.max_le.mp h).2]
      exact if_neg hSecond
  · rw [if_neg hFirst,
      if_neg fun h => hFirst (Nat.max_le.mp h).1]
    rfl

/- A level more is needed and is there. -/
theorem ifEnough_succ
    (a : α) :
    ifEnough (needed + 1) (levels + 1) a =
      ifEnough needed levels a := by
  simp only [ifEnough, Nat.add_le_add_iff_right]

theorem ifEnough_zero
    (a : α) :
    ifEnough 0 levels a = pure a :=
  if_pos (Nat.zero_le levels)

end

section

variable {levels : Nat}
variable
  (h :
    ∀ n : Node,
      n.renderWithin levels =
        ifEnough n.height levels n.render)

include h

theorem mapM_renderWithin
    (ns : List Node) :
    ns.mapM (renderWithin levels) =
      ifEnough (heightList ns) levels (renderList ns) := by
  induction ns with
  | nil => exact (ifEnough_zero _).symm
  | cons n rest ih =>
      simp only [List.mapM_cons, h, ih, ifEnough_pure,
        ifEnough_bind, heightList, renderList]

theorem mapM_renderPair
    (ps : List (Node × Node)) :
    ps.mapM (renderPair (renderWithin levels)) =
      ifEnough (heightPairs ps) levels (renderPairs ps) := by
  induction ps with
  | nil => exact (ifEnough_zero _).symm
  | cons p rest ih =>
      simp only [List.mapM_cons, renderPair, h, ih,
        ifEnough_pure, ifEnough_bind, heightPairs, renderPairs]

end

/- A tree is rendered where it is no higher than the levels. -/
theorem renderWithin_eq
    (levels : Nat)
    (n : Node) :
    n.renderWithin levels =
      ifEnough n.height levels n.render := by
  induction levels generalizing n with
  | zero =>
      exact (if_neg (Nat.not_le.mpr n.height_pos)).symm
  | succ levels ih =>
      change n.renderBy (renderWithin levels) = _
      have hList := mapM_renderWithin ih
      have hPairs := mapM_renderPair ih
      cases n with
      | ifElse _ _ _ alternative =>
          cases alternative <;>
            simp only [renderBy, ih, ifEnough_pure,
              ifEnough_bind, height, render, ifEnough_succ,
              Nat.max_assoc]
      | returnStmt _ value =>
          cases value with
          | none => exact (if_pos (Nat.le_add_left ..)).symm
          | some value =>
              simp only [renderBy, ih, ifEnough_pure, height,
                render, ifEnough_succ]
      | identifier | integer | boolean | string | foreign =>
          exact (if_pos (Nat.le_add_left ..)).symm
      | _ =>
          simp only [renderBy, ih, hList, hPairs, ifEnough_pure,
            ifEnough_bind, height, render, ifEnough_succ]

variable {n n' : Node}
variable {levels : Nat}

/- Enough levels give the text. -/
theorem renderWithin_of_height_le
    (hEnough : n.height ≤ levels) :
    n.renderWithin levels = .ok n.render :=
  (renderWithin_eq levels n).trans (if_pos hEnough)

/- Too few levels give a failure, and nothing else does. -/
theorem renderWithin_of_lt_height
    (hFew : levels < n.height) :
    n.renderWithin levels = .error .tooDeep :=
  (renderWithin_eq levels n).trans
    (if_neg (Nat.not_le.mpr hFew))

theorem renderWithin_of_ne_tooDeep
    (hShown : n.renderWithin levels ≠ .error .tooDeep) :
    n.renderWithin levels = .ok n.render := by
  rcases Nat.lt_or_ge levels n.height with hFew | hEnough
  · exact absurd (renderWithin_of_lt_height hFew) hShown
  · exact renderWithin_of_height_le hEnough

/- A failure says that the tree is too deep. -/
theorem renderWithin_error_iff {f : Failure} :
    n.renderWithin levels = .error f ↔
      levels < n.height ∧ f = .tooDeep := by
  rw [renderWithin_eq, ifEnough]
  split
  next hEnough => simp [Nat.not_lt.mpr hEnough]
  next hFew => simp [Nat.not_le.mp hFew, eq_comm]

/- Trees as high as each other and with one text do not differ
   to who shows them. -/
theorem renderWithin_congr
    (hHeight : n'.height = n.height)
    (hText : n'.render = n.render) :
    n'.renderWithin levels = n.renderWithin levels := by
  rw [renderWithin_eq, renderWithin_eq, hHeight, hText]

end Node

end Monkey
