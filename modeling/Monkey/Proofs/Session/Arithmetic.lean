import Monkey.Proofs.Eval.Arithmetic
import Monkey.Proofs.Parse.Acceptance
import Monkey.Proofs.Parse.DeepNesting
import Monkey.Proofs.Session.Answers
import Monkey.Proofs.Session.ReadBack

/-
  Running texts of arithmetic.

  A text that spells an arithmetic expression, with parentheses
  where the operators need them or with more, runs to what the
  expression is worth, or to an error if it divides by zero.
  The only other way to end is for want of levels of nesting.

  Main declarations:
    * `Arithmetic.SpelledBy`
    * `RunsTo`
    * `run_arithmetic`
    * `run_signedOne_tooDeep`
-/

namespace Monkey

namespace Arithmetic

------------------------------------------------------------
-- Texts
------------------------------------------------------------

/- A text is the expression as a program. -/
def SpelledBy
    (e : Arithmetic)
    (source : String) : Prop :=
  Spells (fun _ _ => True)
    (.program (.program [.exprStmt .blank e.node]))
    (bodyTokens source)

/- A program may be an expression alone. -/
theorem SpelledBy.of_spells
    {e : Arithmetic}
    {source : String}
    {b : Precedence}
    (h :
      Spells (fun _ _ => True) (.expression e.node b)
        (bodyTokens source)) :
    e.SpelledBy source := by
  rcases h.expression_opens with ⟨first, rest, hTokens, -⟩
  unfold SpelledBy
  rw [hTokens] at h ⊢
  rw [← List.append_nil (first :: rest)]
  exact .program
    (.openStatement (.exprStmt h trivial) ⟨fun _ => rfl, nofun⟩
      .noStatements)

/- The tree of an expression has no tokens. -/
theorem bare_node
    (e : Arithmetic) :
    e.node.bare = e.node := by
  induction e with
  | literal => rfl
  | negation e ih => rw [node, Node.bare, ih]
  | operation operator left right ihLeft ihRight =>
      rw [node, Node.bare, ihLeft, ihRight]

end Arithmetic

/-
  A run comes to an outcome.  With enough levels of nesting the
  text is read as a program, and that gives the outcome.  At the
  limits that there are, it runs to the outcome, or one of them
  is too low and it stops for want of levels.
-/
structure RunsTo
    [Platform]
    (source : String)
    (levels : Nat)
    (scope : ScopeId)
    (m : Machine)
    (outcome : Eval Value) : Prop where
  enough :
    ∀ limit depth,
      (bodyTokens source).length ≤ limit →
      levels ≤ depth →
      ∃ p,
        parseWithin limit source = .ok p ∧
          Eval.evaluateWithin depth p scope m = outcome m
  limited :
    run source scope m = outcome.toRun m ∨
      (Platform.nestingLimit < (bodyTokens source).length ∨
          Platform.recursionLimit < levels) ∧
        run source scope m = .error (.failure .tooDeep) m

theorem Arithmetic.SpelledBy.runsTo
    [Platform]
    {e : Arithmetic}
    {source : String}
    {outcome : Eval Value}
    (hSource : e.SpelledBy source)
    (scope : ScopeId)
    (m : Machine)
    (hOutcome :
      ∀ n, n.bare = e.node →
        Eval.ComesTo e.levels (Eval.evaluating n scope) outcome)
    (hPlain :
      ∀ m, ∃ v m',
        outcome m = .ok v m' ∧ v.unwrapReturned = v) :
    RunsTo source (e.levels + 2) scope m outcome := by
  rcases parse_of_spells source _ hSource with
    ⟨p, hBare, hEnough, hReached⟩
  rw [Node.bare, Node.bareList, Node.bareList, Node.bare,
    e.bare_node] at hBare
  rcases Node.exists_of_bare_program hBare with
    ⟨s, rfl, hStatement⟩
  rcases Node.exists_of_bare_exprStmt hStatement with
    ⟨first, n, rfl, hTree⟩
  have hProgram := (hOutcome n hTree).program first hPlain
  constructor
  · intro limit depth hLimit hDepth
    refine ⟨_, hEnough limit hLimit, ?_⟩
    rcases hProgram depth m with hValue | ⟨hFewer, -⟩
    · exact hValue
    · exact absurd hDepth (Nat.not_le.mpr hFewer)
  · by_cases hDeep :
        parseWithin Platform.nestingLimit source = .error .tooDeep
    · refine .inr ⟨.inl (Nat.lt_of_not_le fun hLimit => ?_),
        run_of_parse_error hDeep⟩
      rw [hEnough Platform.nestingLimit hLimit] at hDeep
      cases hDeep
    · rw [run_of_parse (hReached Platform.nestingLimit hDeep)]
      rcases hProgram Platform.recursionLimit m with
        hValue | ⟨hFewer, hTooDeep⟩
      · have hEvaluate : evaluate _ scope m = outcome m := hValue
        refine .inl ?_
        rw [Eval.toRun, Eval.toRun, hEvaluate]
      · have hEvaluate :
            evaluate _ scope m = .error .tooDeep m :=
          hTooDeep
        refine .inr ⟨.inr hFewer, ?_⟩
        rw [Eval.toRun, hEvaluate]

/-
  A text of arithmetic runs to what the expression is worth,
  exactly, or to the error of a division by zero.  One of the
  two is so for every expression.
-/
theorem run_arithmetic
    [Platform]
    (source : String)
    (e : Arithmetic)
    (hSource : e.SpelledBy source)
    (scope : ScopeId)
    (m : Machine) :
    (∀ v, e.HasValue v →
        RunsTo source (e.levels + 2) scope m (pure (.int v))) ∧
      (e.DividesByZero →
        RunsTo source (e.levels + 2) scope m
          (Eval.raise "division by zero")) ∧
      ((∃ v, e.HasValue v) ∨ e.DividesByZero) := by
  refine ⟨fun v hValue => ?_, fun hZero => ?_,
    e.hasValue_or_dividesByZero⟩
  · exact hSource.runsTo scope m
      (fun n hTree => hValue.comesTo hTree scope)
      fun m => ⟨_, _, rfl, rfl⟩
  · exact hSource.runsTo scope m
      (fun n hTree => hZero.comesTo hTree scope)
      fun m => ⟨_, _, rfl, rfl⟩

/- In `-7 / 2 - -3` the quotient is the one that is nearer to
   zero. -/
theorem run_arithmetic_signs :
    letI := Platform.usual
    let e : Arithmetic :=
      .operation .minus
        (.operation .slash (.negation (.literal 7)) (.literal 2))
        (.negation (.literal 3))
    e.SpelledBy "-7 / 2 - -3" ∧
      e.HasValue 0 ∧
      ∃ p,
        parseWithin 8 "-7 / 2 - -3" = .ok p ∧
          Eval.evaluateWithin 6 p Machine.root .new =
            .ok (.int 0) .new := by
  let := Platform.usual
  intro e
  have hTokens :
      bodyTokens "-7 / 2 - -3" =
        (⟨.minus, "-", 1, 1⟩ :: [⟨.int, "7", 1, 2⟩] ++
            ⟨.slash, "/", 1, 4⟩ :: [⟨.int, "2", 1, 6⟩]) ++
          ⟨.minus, "-", 1, 8⟩ ::
            ⟨.minus, "-", 1, 10⟩ :: [⟨.int, "3", 1, 11⟩] := by
    rfl
  have hSeven :
      Spells (fun _ _ => True)
        (.expression (.prefixOp .blank "-" (.integer .blank 7))
          .unary)
        (⟨.minus, "-", 1, 1⟩ :: [⟨.int, "7", 1, 2⟩]) :=
    .prefixOp (t := ⟨.minus, "-", 1, 1⟩) (.inr rfl) trivial
      (.integer (t := ⟨.int, "7", 1, 2⟩) rfl (by decide) trivial)
      (by decide)
  have hQuotient :
      Spells (fun _ _ => True)
        (.expression
          (.infixOp .blank
            (.prefixOp .blank "-" (.integer .blank 7)) "/"
            (.integer .blank 2))
          .product)
        (⟨.minus, "-", 1, 1⟩ :: [⟨.int, "7", 1, 2⟩] ++
          ⟨.slash, "/", 1, 4⟩ :: [⟨.int, "2", 1, 6⟩]) :=
    .infixOp (t := ⟨.slash, "/", 1, 4⟩) (by decide) trivial hSeven
      (by decide)
      (.integer (t := ⟨.int, "2", 1, 6⟩) rfl (by decide) trivial)
      (by decide)
  have hThree :
      Spells (fun _ _ => True)
        (.expression (.prefixOp .blank "-" (.integer .blank 3))
          .unary)
        (⟨.minus, "-", 1, 10⟩ :: [⟨.int, "3", 1, 11⟩]) :=
    .prefixOp (t := ⟨.minus, "-", 1, 10⟩) (.inr rfl) trivial
      (.integer (t := ⟨.int, "3", 1, 11⟩) rfl (by decide) trivial)
      (by decide)
  have hSpelled : e.SpelledBy "-7 / 2 - -3" := by
    refine .of_spells (b := .sum) ?_
    rw [hTokens]
    exact .infixOp (t := ⟨.minus, "-", 1, 8⟩) (by decide) trivial
      hQuotient (by decide) hThree (by decide)
  have hValue : e.HasValue 0 :=
    .operation
      (.operation (.negation (.literal 7)) (.literal 2)
        (.slash (q := -3) ⟨-1, by decide, by decide, by decide⟩))
      (.negation (.literal 3)) (.minus (-3) (-3))
  have hRuns :=
    (run_arithmetic _ e hSpelled Machine.root .new).1 0 hValue
  exact ⟨hSpelled, hValue,
    hRuns.enough 8 6 (by rw [hTokens]; decide) (by decide)⟩

------------------------------------------------------------
-- Signs Before One
------------------------------------------------------------

/- Signs and then the number one. -/
def signedOne (n : Nat) : String :=
  String.ofList (List.replicate n '-' ++ ['1'])

/- The expression of one after signs. -/
def Arithmetic.negations : Nat → Arithmetic
  | 0 => .literal 1
  | n + 1 => .negation (negations n)

/- Two signs change nothing. -/
theorem Arithmetic.hasValue_negations
    (n : Nat) :
    (negations (2 * n)).HasValue 1 := by
  induction n with
  | zero => exact .literal 1
  | succ n ih =>
      have hTwice := HasValue.negation (.negation ih)
      rw [Int.neg_neg] at hTwice
      exact hTwice

/- Signs are read one by one. -/
theorem scans_signedOne
    (n : Nat) :
    Scans (List.replicate n '-' ++ ['1'])
      (List.replicate n (.ofMark .minus '-') ++ [.ofNat 1])
      [] := by
  induction n with
  | zero => exact writes_ofNat 1 [] nofun
  | succ n ih =>
      exact .ofMark (c := '-') rfl (fun _ _ => rfl) ih

/- What signs spell, wherever they stand. -/
theorem spells_negations
    {n : Nat}
    {us : List Token}
    (hAlike :
      List.Forall₂ Token.Alike
        (List.replicate n (.ofMark .minus '-') ++ [.ofNat 1])
        us) :
    ∃ b,
      Spells (fun _ _ => True)
          (.expression (Arithmetic.negations n).node b) us ∧
        Precedence.unary.rank ≤ b.rank := by
  induction n generalizing us with
  | zero =>
      rcases exists_single_of_alike hAlike with
        ⟨t, rfl, hKind, hText⟩
      have hLiteral : t.literal = "1" := hText.symm
      have hSpells :
          Spells (fun _ _ => True)
            (.expression
              (.integer .blank (digitsValue t.literal.toList))
              .call)
            [t] :=
        .integer hKind.symm (by rw [hLiteral]; decide) trivial
      rw [hLiteral] at hSpells
      exact ⟨.call, hSpells, by decide⟩
  | succ n ih =>
      rcases exists_cons_of_alike hAlike with
        ⟨t, vs, rfl, ⟨hKind, hText⟩, hMore⟩
      rcases ih hMore with ⟨b, hSpells, hStrength⟩
      have hLiteral : t.literal = "-" := hText.symm
      have hSigned :
          Spells (fun _ _ => True)
            (.expression
              (.prefixOp .blank t.literal
                (Arithmetic.negations n).node)
              .unary)
            (t :: vs) :=
        .prefixOp (.inr hKind.symm) trivial hSpells hStrength
      rw [hLiteral] at hSigned
      exact ⟨.unary, hSigned, Nat.le_refl _⟩

/- With as many signs as there are levels the text spells an
   expression, but is nested too deep to be read. -/
theorem negations_tooDeep
    [Platform]
    {n : Nat}
    (hSome : 0 < n)
    (hDeep : Platform.nestingLimit ≤ n)
    (scope : ScopeId)
    (m : Machine) :
    (Arithmetic.negations n).SpelledBy (signedOne n) ∧
      run (signedOne n) scope m = .error (.failure .tooDeep) m := by
  have hAlike :
      List.Forall₂ Token.Alike
        (List.replicate n (.ofMark .minus '-') ++ [.ofNat 1])
        (bodyTokens (signedOne n)) := by
    refine bodyTokens_of_scans ?_
    rw [signedOne, String.toList_ofList]
    exact scans_signedOne n
  constructor
  · rcases spells_negations hAlike with ⟨b, hSpells, -⟩
    exact .of_spells hSpells
  · rcases exists_append_of_alike hAlike with
      ⟨signs, one, hBody, hSigns, -⟩
    refine run_of_parse_error (parseWithin_eq_tooDeep hBody ?_ ?_ ?_)
    · refine forall_kind_of_alike hSigns fun t hMem => ?_
      rw [List.eq_of_mem_replicate hMem]
      exact .inr (.inr rfl)
    · rw [← hSigns.length_eq, List.length_replicate]
      exact hSome
    · rw [← hSigns.length_eq, List.length_replicate]
      exact hDeep

/- Five thousand signs before a one are worth one, but they are
   too many to be read. -/
theorem run_signedOne_tooDeep :
    letI := Platform.usual
    ∃ e : Arithmetic,
      e.SpelledBy (signedOne 5000) ∧
        e.HasValue 1 ∧
        run (signedOne 5000) Machine.root .new =
          .error (.failure .tooDeep) .new := by
  let := Platform.usual
  have hLimit : Platform.usual.nestingLimit ≤ 5000 := by decide
  rcases negations_tooDeep (by decide) hLimit Machine.root
      .new with
    ⟨hSpelled, hDeep⟩
  exact ⟨_, hSpelled, Arithmetic.hasValue_negations 2500, hDeep⟩

end Monkey
