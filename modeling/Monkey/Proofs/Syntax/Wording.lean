import Monkey.Proofs.Eval.Form
import Monkey.Proofs.Syntax.MapNames
import Monkey.Syntax.Render

/-
  Trees in other words.

  A relation of texts that goes from the parts of texts to what
  they are put together to goes from the names and tokens of a
  tree to its text.  A tree with other names and tokens takes as
  many levels to show.

  Main declarations:
    * `Textwise`
    * `PrintsLike`
    * `Node.renderWithin_mapNames`
-/

namespace Monkey

------------------------------------------------------------
-- Related Texts
------------------------------------------------------------

/- A relation that holds of equal texts, and of texts put
   together from related ones. -/
structure Textwise (rel : String → String → Prop) : Prop where
  refl (a : String) : rel a a
  append
    {a a' b b' : String}
    (hFirst : rel a a')
    (hSecond : rel b b') :
    rel (a ++ b) (a' ++ b')

/- One text in the place of another is the same. -/
theorem textwise_eq : Textwise fun a a' => a' = a where
  refl _ := rfl
  append hFirst hSecond := by rw [hFirst, hSecond]

/- One text can be printed just if the other can. -/
def PrintsLike [Platform] (a a' : String) : Prop :=
  Builtin.isPrintable a' = Builtin.isPrintable a

theorem textwise_printsLike [Platform] : Textwise PrintsLike where
  refl _ := rfl
  append hFirst hSecond := by
    unfold PrintsLike Builtin.isPrintable at *
    rw [String.toList_append, String.toList_append,
      List.all_append, List.all_append, hFirst, hSecond]

namespace Textwise

variable {rel : String → String → Prop}
variable (hRel : Textwise rel)
variable {texts texts' : List String}

include hRel

/- A fixed text in front. -/
theorem append_left
    (a : String)
    {b b' : String}
    (h : rel b b') :
    rel (a ++ b) (a ++ b') :=
  hRel.append (hRel.refl a) h

/- A fixed text behind. -/
theorem append_right
    {a a' : String}
    (b : String)
    (h : rel a a') :
    rel (a ++ b) (a' ++ b) :=
  hRel.append h (hRel.refl b)

theorem join
    (h : List.Forall₂ rel texts texts') :
    rel (String.join texts) (String.join texts') := by
  induction h with
  | nil => exact hRel.refl _
  | cons hFirst _ ih =>
      rw [String.join_cons, String.join_cons]
      exact hRel.append hFirst ih

theorem intercalate
    (sep : String)
    (h : List.Forall₂ rel texts texts') :
    rel (String.intercalate sep texts)
      (String.intercalate sep texts') := by
  induction h with
  | nil => exact hRel.refl _
  | cons hFirst hRest ih =>
      cases hRest with
      | nil =>
          rw [String.intercalate_singleton,
            String.intercalate_singleton]
          exact hFirst
      | cons =>
          rw [String.intercalate_cons_cons,
            String.intercalate_cons_cons]
          exact hRel.append (hRel.append_right sep hFirst) ih

end Textwise

------------------------------------------------------------
-- Texts of Trees
------------------------------------------------------------

namespace Node

variable {rel : String → String → Prop}
variable {names : Identifier → Identifier}
variable {f g : Token → Token}

theorem renderParams_related
    (hRel : Textwise rel)
    (hNames : ∀ id, rel id.name (names id).name)
    (params : List Identifier) :
    rel (renderParams params)
      (renderParams (params.map names)) := by
  refine hRel.intercalate ", " ?_
  rw [List.map_map]
  exact List.forall₂_map_left_iff.mpr
    (List.forall₂_map_right_iff.mpr
      (List.forall₂_same.mpr fun id _ => hNames id))

/- Where names and tokens are related to what is put for them, so
   is the text of a tree, and it fails where it did before. -/
theorem renderWithin_mapNames
    (hRel : Textwise rel)
    (hNames : ∀ id, rel id.name (names id).name)
    (hTokens : ∀ t, rel t.literal (f t).literal)
    (levels : Nat)
    (n : Node) :
    LikeResults Eq rel (n.renderWithin levels)
      ((n.mapNames names f g).renderWithin levels) := by
  induction levels generalizing n with
  | zero => exact .error rfl
  | succ levels ih =>
      have hList :
          ∀ ns : List Node,
            LikeResults Eq (List.Forall₂ rel)
              (ns.mapM (renderWithin levels))
              ((mapNamesList names f g ns).mapM
                (renderWithin levels)) := by
        intro ns
        rw [mapNamesList_eq_map, List.mapM_map]
        exact .mapM ns fun n _ => ih n
      have hPairs :
          ∀ ps : List (Node × Node),
            LikeResults Eq (List.Forall₂ rel)
              (ps.mapM (renderPair (renderWithin levels)))
              ((mapNamesPairs names f g ps).mapM
                (renderPair (renderWithin levels))) := by
        intro ps
        rw [mapNamesPairs_eq_map, List.mapM_map]
        exact .mapM ps fun p _ =>
          (ih p.1).bind fun _ _ hKey =>
            (ih p.2).bind fun _ _ hValue =>
              .ok (hRel.append (hRel.append_right ":" hKey)
                hValue)
      change
        LikeResults Eq rel (n.renderBy (renderWithin levels))
          ((n.mapNames names f g).renderBy (renderWithin levels))
      cases n with
      | identifier id => exact .ok (hNames id)
      | integer t _ => exact .ok (hTokens t)
      | boolean t _ => exact .ok (hTokens t)
      | string t _ => exact .ok (hTokens t)
      | foreign => exact .ok (hRel.refl _)
      | prefixOp _ operator right =>
          exact (ih right).bind fun _ _ hRight =>
            .ok (hRel.append_right ")"
              (hRel.append_left ("(" ++ operator) hRight))
      | infixOp _ left operator right =>
          refine (ih left).bind fun _ _ hLeft => ?_
          refine (ih right).bind fun _ _ hRight => ?_
          have hBegin := hRel.append_right " "
            (hRel.append_right operator
              (hRel.append_right " "
                (hRel.append_left "(" hLeft)))
          exact .ok
            (hRel.append_right ")" (hRel.append hBegin hRight))
      | ifElse _ condition consequence alternative =>
          cases alternative with
          | none =>
              refine (ih condition).bind fun _ _ hFirst => ?_
              refine (ih consequence).bind fun _ _ hThen => ?_
              have hBegin := hRel.append_right " "
                (hRel.append_left "if" hFirst)
              exact .ok (hRel.append hBegin hThen)
          | some alternative =>
              refine (ih condition).bind fun _ _ hFirst => ?_
              refine (ih consequence).bind fun _ _ hThen => ?_
              refine (ih alternative).bind fun _ _ hElse => ?_
              have hBegin := hRel.append_right " "
                (hRel.append_left "if" hFirst)
              exact .ok
                (hRel.append
                  (hRel.append_right "else "
                    (hRel.append hBegin hThen)) hElse)
      | function t params body =>
          refine (ih body).bind fun _ _ hBody => ?_
          have hBegin := hRel.append_right ") "
            (hRel.append (hRel.append_right "(" (hTokens t))
              (renderParams_related hRel hNames params))
          exact .ok (hRel.append hBegin hBody)
      | call _ callee args =>
          refine (ih callee).bind fun _ _ hCallee => ?_
          refine (hList args).bind fun _ _ hArgs => ?_
          exact .ok
            (hRel.append_right ")"
              (hRel.append (hRel.append_right "(" hCallee)
                (hRel.intercalate "," hArgs)))
      | array _ elements =>
          exact (hList elements).bind fun _ _ hElements =>
            .ok (hRel.append_right "]"
              (hRel.append_left "["
                (hRel.intercalate ", " hElements)))
      | index _ left subscript =>
          refine (ih left).bind fun _ _ hLeft => ?_
          refine (ih subscript).bind fun _ _ hSubscript => ?_
          have hBegin := hRel.append_right "["
            (hRel.append_left "(" hLeft)
          exact .ok
            (hRel.append_right "])"
              (hRel.append hBegin hSubscript))
      | hash _ pairs =>
          exact (hPairs pairs).bind fun _ _ hEntries =>
            .ok (hRel.append_right "\x7d"
              (hRel.append_left "\x7b"
                (hRel.intercalate ", " hEntries)))
      | letStmt t name value =>
          refine (ih value).bind fun _ _ hValue => ?_
          have hBegin := hRel.append_right " = "
            (hRel.append (hRel.append_right " " (hTokens t))
              (hNames name))
          exact .ok
            (hRel.append_right ";" (hRel.append hBegin hValue))
      | returnStmt t value =>
          cases value with
          | none => exact .ok (hRel.append_right ";" (hTokens t))
          | some value =>
              refine (ih value).bind fun _ _ hValue => ?_
              have hBegin := hRel.append_right " " (hTokens t)
              exact .ok
                (hRel.append_right ";"
                  (hRel.append hBegin hValue))
      | exprStmt _ expression => exact ih expression
      | block _ body =>
          exact (hList body).bind fun _ _ hBody =>
            .ok (hRel.join hBody)
      | program body =>
          exact (hList body).bind fun _ _ hBody =>
            .ok (hRel.join hBody)

end Node

end Monkey
