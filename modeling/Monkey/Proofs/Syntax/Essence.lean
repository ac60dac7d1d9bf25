import Monkey.Proofs.Parse.Spelling
import Monkey.Proofs.Syntax.Text
import Monkey.Syntax.Outline
import Monkey.Syntax.Render

/-
  What of a tree can be seen.

  The text of a tree and its outline show the texts of some
  tokens, never their places, and of other tokens nothing at
  all.  The essence of a tree is what is left if one forgets
  everything that neither of them shows.

  Main declarations:
    * `Node.essence`
    * `Node.unplaced`
    * `Node.render_essence`
    * `Node.outline?_essence`
-/

namespace Monkey

/- A token of the same kind and text at no place. -/
def Token.unplaced (t : Token) : Token :=
  { t with line := 0, column := 0 }

namespace Node

variable {f g : Token → Token}

------------------------------------------------------------
-- Texts and Outlines
------------------------------------------------------------

theorem renderList_eq_map
    (ns : List Node) :
    renderList ns = ns.map render := by
  induction ns with
  | nil => rfl
  | cons n rest ih => simp [renderList, ih]

theorem renderPairs_eq_map
    (ps : List (Node × Node)) :
    renderPairs ps =
      ps.map fun p => p.1.render ++ ":" ++ p.2.render := by
  induction ps with
  | nil => rfl
  | cons p rest ih => simp [renderPairs, ih]

/- Parameter names do not depend on tokens. -/
theorem renderParams_map
    (params : List Identifier) :
    renderParams
        (params.map fun id =>
          { id with token := g id.token }) =
      renderParams params := by
  unfold renderParams
  rw [List.map_map]
  rfl

mutual

/- Other tokens with the same texts leave the text of a tree as
   it is. -/
theorem render_mapTokens
    (hText : ∀ t, (f t).literal = t.literal) :
    ∀ n : Node, (n.mapTokens f g).render = n.render
  | .identifier id => by simp [mapTokens, render]
  | .integer t n => by simp [mapTokens, render, hText]
  | .boolean t b => by simp [mapTokens, render, hText]
  | .string t s => by simp [mapTokens, render, hText]
  | .prefixOp t operator right => by
      simp [mapTokens, render, render_mapTokens hText right]
  | .infixOp t left operator right => by
      simp [mapTokens, render, render_mapTokens hText left,
        render_mapTokens hText right]
  | .ifElse t condition consequence none => by
      simp [mapTokens, render,
        render_mapTokens hText condition,
        render_mapTokens hText consequence]
  | .ifElse t condition consequence (some alternative) => by
      simp [mapTokens, render,
        render_mapTokens hText condition,
        render_mapTokens hText consequence,
        render_mapTokens hText alternative]
  | .function t params body => by
      simp [mapTokens, render, hText, renderParams_map,
        render_mapTokens hText body]
  | .call t callee args => by
      simp [mapTokens, render, render_mapTokens hText callee,
        renderList_mapTokens hText args]
  | .array t elements => by
      simp [mapTokens, render,
        renderList_mapTokens hText elements]
  | .index t left subscript => by
      simp [mapTokens, render, render_mapTokens hText left,
        render_mapTokens hText subscript]
  | .hash t pairs => by
      simp [mapTokens, render,
        renderPairs_mapTokens hText pairs]
  | .letStmt t name value => by
      simp [mapTokens, render, hText,
        render_mapTokens hText value]
  | .returnStmt t none => by simp [mapTokens, render, hText]
  | .returnStmt t (some value) => by
      simp [mapTokens, render, hText,
        render_mapTokens hText value]
  | .exprStmt t expression => by
      simp [mapTokens, render,
        render_mapTokens hText expression]
  | .block t statements => by
      simp [mapTokens, render,
        renderList_mapTokens hText statements]
  | .program statements => by
      simp [mapTokens, render,
        renderList_mapTokens hText statements]
  | .foreign => rfl

theorem renderList_mapTokens
    (hText : ∀ t, (f t).literal = t.literal) :
    ∀ ns : List Node,
      renderList (mapTokensList f g ns) = renderList ns
  | [] => rfl
  | n :: rest => by
      simp [mapTokensList, renderList,
        render_mapTokens hText n,
        renderList_mapTokens hText rest]

theorem renderPairs_mapTokens
    (hText : ∀ t, (f t).literal = t.literal) :
    ∀ ps : List (Node × Node),
      renderPairs (mapTokensPairs f g ps) = renderPairs ps
  | [] => rfl
  | (key, value) :: rest => by
      simp [mapTokensPairs, renderPairs,
        render_mapTokens hText key,
        render_mapTokens hText value,
        renderPairs_mapTokens hText rest]

end

/- Names have the same leaves whatever their tokens. -/
theorem nameLeaf_map
    (params : List Identifier) :
    (params.map fun id =>
        { id with token := g id.token }).map nameLeaf =
      params.map nameLeaf := by
  rw [List.map_map]
  rfl

mutual

/- Other tokens with the same kinds and texts leave the outline
   of a tree as it is. -/
theorem outline?_mapTokens
    (hAlike :
      ∀ t, (f t).kind = t.kind ∧ (f t).literal = t.literal) :
    ∀ n : Node, (n.mapTokens f g).outline? = n.outline?
  | .identifier id => rfl
  | .integer t n => by simp [mapTokens, outline?, hAlike]
  | .boolean t b => by simp [mapTokens, outline?, hAlike]
  | .string t s => by simp [mapTokens, outline?]
  | .prefixOp t operator right => by
      simp [mapTokens, outline?,
        outline?_mapTokens hAlike right]
  | .infixOp t left operator right => by
      simp [mapTokens, outline?,
        outline?_mapTokens hAlike left,
        outline?_mapTokens hAlike right]
  | .ifElse t condition consequence none => by
      simp [mapTokens, outline?,
        outline?_mapTokens hAlike condition,
        outline?_mapTokens hAlike consequence]
  | .ifElse t condition consequence (some alternative) => by
      simp [mapTokens, outline?,
        outline?_mapTokens hAlike condition,
        outline?_mapTokens hAlike consequence,
        outline?_mapTokens hAlike alternative]
  | .function t params body => by
      simp only [mapTokens, outline?, nameLeaf_map,
        outline?_mapTokens hAlike body]
  | .call t callee args => by
      simp [mapTokens, outline?,
        outline?_mapTokens hAlike callee,
        outlineList?_mapTokens hAlike args]
  | .array t elements => by
      simp [mapTokens, outline?,
        outlineList?_mapTokens hAlike elements]
  | .index t left subscript => by
      simp [mapTokens, outline?,
        outline?_mapTokens hAlike left,
        outline?_mapTokens hAlike subscript]
  | .hash t pairs => by
      simp [mapTokens, outline?,
        outlinePairs?_mapTokens hAlike pairs]
  | .letStmt t name value => by
      simp [mapTokens, outline?, nameLeaf,
        outline?_mapTokens hAlike value]
  | .returnStmt t none => rfl
  | .returnStmt t (some value) => by
      simp [mapTokens, outline?,
        outline?_mapTokens hAlike value]
  | .exprStmt t expression => by
      simp [mapTokens, outline?,
        outline?_mapTokens hAlike expression]
  | .block t statements => by
      simp [mapTokens, outline?,
        outlineList?_mapTokens hAlike statements]
  | .program statements => by
      simp [mapTokens, outline?,
        outlineList?_mapTokens hAlike statements]
  | .foreign => rfl

theorem outlineList?_mapTokens
    (hAlike :
      ∀ t, (f t).kind = t.kind ∧ (f t).literal = t.literal) :
    ∀ ns : List Node,
      outlineList? (mapTokensList f g ns) = outlineList? ns
  | [] => rfl
  | n :: rest => by
      simp [mapTokensList, outlineList?,
        outline?_mapTokens hAlike n,
        outlineList?_mapTokens hAlike rest]

theorem outlinePairs?_mapTokens
    (hAlike :
      ∀ t, (f t).kind = t.kind ∧ (f t).literal = t.literal) :
    ∀ ps : List (Node × Node),
      outlinePairs? (mapTokensPairs f g ps) = outlinePairs? ps
  | [] => rfl
  | (key, value) :: rest => by
      simp [mapTokensPairs, outlinePairs?,
        outline?_mapTokens hAlike key,
        outline?_mapTokens hAlike value,
        outlinePairs?_mapTokens hAlike rest]

end

------------------------------------------------------------
-- The Essence of a Tree
------------------------------------------------------------

/- A tree with what its text and its outline show, and no
   more. -/
def essence (n : Node) : Node :=
  n.mapTokens Token.unplaced fun _ => .blank

/- Trees of the same essence have the same text. -/
theorem render_essence
    (n : Node) :
    n.essence.render = n.render :=
  render_mapTokens (f := Token.unplaced) (fun _ => rfl) n

/- Trees of the same essence are as high. -/
theorem height_essence
    (n : Node) :
    n.essence.height = n.height :=
  height_mapTokens n

/- Trees of the same essence are shown alike. -/
theorem renderWithin_essence
    (levels : Nat)
    (n : Node) :
    n.essence.renderWithin levels = n.renderWithin levels :=
  renderWithin_congr n.height_essence n.render_essence

/- Trees of the same essence have the same outline. -/
theorem outline?_essence
    (n : Node) :
    n.essence.outline? = n.outline? :=
  outline?_mapTokens (f := Token.unplaced)
    (fun _ => ⟨rfl, rfl⟩) n

/- A tree without the places of its tokens. -/
def unplaced (n : Node) : Node :=
  n.mapTokens Token.unplaced Token.unplaced

/- The essence of a tree does not hold places. -/
theorem essence_unplaced
    (n : Node) :
    n.unplaced.essence = n.essence :=
  mapTokens_comp n

/- The essence of a program is that of its statements. -/
theorem essence_program
    (ss : List Node) :
    (program ss).essence = program (ss.map essence) := by
  change program (mapTokensList _ _ ss) = _
  rw [mapTokensList_eq_map]
  rfl

end Node

end Monkey
