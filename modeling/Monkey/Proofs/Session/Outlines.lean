import Monkey.Proofs.Session.Layout
import Monkey.Proofs.Syntax.Legible

/-
  The outline of a program says all that matters.

  Programs of the same outline, whatever texts they are from,
  are the same but for tokens that no outline shows.  They have
  the same text, and nobody can tell their evaluations apart.

  Main declarations:
    * `outline_determines_program`
-/

namespace Monkey

variable [Platform]

/- Nodes that differ in nothing that an outline keeps have the
   same essence. -/
omit [Platform] in
theorem Node.essence_of_leafTexts
    {p q : Node}
    (h : p.leafTexts = q.leafTexts) :
    p.essence = q.essence := by
  rw [← p.essence_leafTexts, h, q.essence_leafTexts]

/- Programs of the same essence show the same on machines of the
   same essence. -/
theorem observe_evaluate_of_essence
    {p q : Node}
    {m m' : Machine}
    (hTree : p.essence = q.essence)
    (hSame : m.essence = m'.essence)
    (scope : ScopeId) :
    observe (shown (evaluate p scope m)) =
      observe (shown (evaluate q scope m')) := by
  have hResults :
      resultEssence (evaluate p scope m) =
        resultEssence (evaluate q scope m') := by
    unfold evaluate
    rw [← evaluateWithin_essence, ← evaluateWithin_essence,
      hTree, hSame]
  rw [← observe_shown_essence, hResults, observe_shown_essence]

/-
  Two programs that are read from texts have the same outline
  only if they are the same, but for the places of tokens and
  for tokens of other nodes than names, literals, functions,
  `let` and `return`.  Then their text is the same and takes as
  many levels, and on machines of the same essence their
  evaluations come to results that are displayed alike, with the
  same output and the same bindings, or fail alike.
-/
theorem outline_determines_program
    {limit limit' : Nat}
    {source source' : String}
    {p q : Node}
    (hParse : parseWithin limit source = .ok p)
    (hParse' : parseWithin limit' source' = .ok q)
    (hOutline : p.outline? = q.outline?) :
    p.leafTexts = q.leafTexts ∧
      (∀ levels, p.renderWithin levels = q.renderWithin levels) ∧
        ∀ m m' : Machine,
          m.essence = m'.essence →
            ∀ scope,
              observe (shown (evaluate p scope m)) =
                observe (shown (evaluate q scope m')) := by
  have hLegible : p.Legible := legible_of_parseWithin hParse
  have hLegible' : q.Legible := legible_of_parseWithin hParse'
  have hLeaves : p.leafTexts = q.leafTexts :=
    (hLegible.outline?_eq_iff hLegible').mp hOutline
  have hTree : p.essence = q.essence :=
    Node.essence_of_leafTexts hLeaves
  refine ⟨hLeaves, fun levels => ?_, fun m m' hSame scope => ?_⟩
  · rw [← p.renderWithin_essence, hTree, q.renderWithin_essence]
  · exact observe_evaluate_of_essence hTree hSame scope

/- Parentheses that change nothing are in no outline, though the
   one statement begins with a parenthesis and the other one
   does not. -/
omit [Platform] in
theorem outline_determines_program_grouped :
    letI := Platform.usual
    let p : Node :=
      .program
        [.exprStmt ⟨.minus, "-", 1, 1⟩
          (.prefixOp ⟨.minus, "-", 1, 1⟩ "-"
            (.integer ⟨.int, "1", 1, 3⟩ 1))]
    let q : Node :=
      .program
        [.exprStmt ⟨.lparen, "(", 1, 1⟩
          (.prefixOp ⟨.minus, "-", 1, 2⟩ "-"
            (.integer ⟨.int, "1", 1, 3⟩ 1))]
    parse "-(1)" = .ok p ∧
      parse "(-1)" = .ok q ∧
        p.leafTexts = q.leafTexts ∧
          observe (shown (evaluate p Machine.root .new)) =
            observe (shown (evaluate q Machine.root .new)) := by
  let := Platform.usual
  intro p q
  have hParse : parse "-(1)" = .ok p := by
    rfl
  have hParse' : parse "(-1)" = .ok q := by
    rfl
  have hOutline : p.outline? = q.outline? := by
    rfl
  rcases outline_determines_program hParse hParse' hOutline with
    ⟨hLeaves, -, hRuns⟩
  exact ⟨hParse, hParse', hLeaves,
    hRuns .new .new rfl Machine.root⟩

end Monkey
