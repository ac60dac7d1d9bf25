import Monkey.Proofs.Eval.Essence
import Monkey.Proofs.Eval.HashLookup
import Monkey.Proofs.Parse.Joining
import Monkey.Proofs.Session.Answers

/-
  A session is one program.

  Texts that are submitted one after another do what they do as a
  single text: the same answer at the end, the same output, and
  the same bindings.  The texts before the last one have to end
  with a semicolon, so that nothing runs into the next text, and
  none of them may stop early.

  Main declarations:
    * `Eval.statements_append`
    * `GoesThrough`
    * `submit_join`
-/

namespace Monkey

------------------------------------------------------------
-- Statements One After Another
------------------------------------------------------------

variable [Platform]

namespace Eval

variable {eval : Node → ScopeId → Eval Value}
variable {scope : ScopeId}

/- After statements that did not stop early, others go on where
   these have left the machine. -/
omit [Platform] in
theorem statements_append
    {last v : Value}
    {ss : List Node}
    {m mid : Machine}
    (h :
      statements (M := Eval) eval scope last ss m = .ok v mid)
    (hGoesOn : v.isFinal = false)
    (more : List Node) :
    statements (M := Eval) eval scope last (ss ++ more) m =
      statements (M := Eval) eval scope v more mid := by
  induction ss generalizing last m with
  | nil =>
      cases h
      rfl
  | cons s ss ih =>
      unfold statements at h
      rw [List.cons_append, statements]
      cases hFirst : eval s scope m with
      | error f after =>
          change EStateM.bind (eval s scope) _ m = _ at h
          unfold EStateM.bind at h
          rw [hFirst] at h
          cases h
      | ok u after =>
          rw [bind_eq_of_ok hFirst] at h ⊢
          by_cases hStops : u.isFinal = true
          · rw [if_pos hStops] at h
            cases h
            rw [hGoesOn] at hStops
            cases hStops
          · rw [if_neg hStops] at h ⊢
            exact ih h

/- Where there are statements, the value before them does not
   matter. -/
omit [Platform] in
theorem statements_last
    {ss : List Node}
    (hNonempty : ss ≠ [])
    (last last' : Value) :
    statements (M := Eval) eval scope last ss =
      statements (M := Eval) eval scope last' ss := by
  cases ss with
  | nil => exact absurd rfl hNonempty
  | cons s ss => rfl

end Eval

/- The statements of a program in a scope, one level below it.  A
   return mark is still on the result. -/
def runStatements
    (body : List Node)
    (scope : ScopeId) :
    Eval Value :=
  match Platform.recursionLimit with
  | 0 => throw .tooDeep
  | depth + 1 =>
      Eval.statements (M := Eval) (Eval.evaluateWithin depth)
        scope .null body

/- A program takes the mark off the result of its statements. -/
theorem evaluate_program
    (body : List Node)
    (scope : ScopeId) :
    evaluate (.program body) scope =
      runStatements body scope >>= fun v =>
        pure v.unwrapReturned := by
  unfold evaluate runStatements
  cases Platform.recursionLimit <;> rfl

/- After statements that go on come the others. -/
theorem runStatements_append
    {first later : List Node}
    {scope : ScopeId}
    {m mid : Machine}
    {v : Value}
    (h : runStatements first scope m = .ok v mid)
    (hGoesOn : v.isFinal = false)
    (hNonempty : later ≠ []) :
    runStatements (first ++ later) scope m =
      runStatements later scope mid := by
  unfold runStatements at h ⊢
  generalize Platform.recursionLimit = limit at h ⊢
  cases limit with
  | zero => cases h
  | succ depth =>
      dsimp only at h ⊢
      rw [Eval.statements_append h hGoesOn,
        Eval.statements_last hNonempty v .null]

------------------------------------------------------------
-- One Submission
------------------------------------------------------------

/- A text whose program stops at a statement with a return mark
   as its value. -/
def StopsAtReturn
    (source : String)
    (scope : ScopeId)
    (m : Machine) : Prop :=
  ∃ body id v after,
    parse source = .ok (.program body) ∧
      runStatements body scope m = .ok (.returned id v) after

/- Whether a text does so. -/
def stopsAtReturn
    (source : String)
    (scope : ScopeId)
    (m : Machine) : Bool :=
  match parse source with
  | .ok (.program body) =>
      match runStatements body scope m with
      | .ok (.returned _ _) _ => true
      | _ => false
  | _ => false

theorem not_stopsAtReturn_of_check
    {source : String}
    {scope : ScopeId}
    {m : Machine}
    (h : stopsAtReturn source scope m = false) :
    ¬ StopsAtReturn source scope m := by
  rintro ⟨body, id, v, after, hParse, hRun⟩
  unfold stopsAtReturn at h
  simp only [hParse, hRun] at h
  cases h

/- An answer tells of an error just if the result is one. -/
theorem display_isError
    {v : Value}
    {shown : Display}
    (h : display v = .ok shown) :
    shown.isError = v.isError := by
  unfold display at h
  split at h
  · cases h
    rfl
  · cases hText : v.inspect Platform.displayLimit with
    | error f =>
        rw [hText] at h
        cases h
    | ok text =>
        rw [hText] at h
        cases h
        rfl

/- The answer to the result of an evaluation, if there is
   one. -/
def answerTo :
    EStateM.Result Failure Machine Value →
      EStateM.Result Failure Machine Submission
  | .ok v after =>
      match display v with
      | .ok shown =>
          .ok { display := shown, interrupt := none } after
      | .error f => .error f after
  | .error f after =>
      if f.isReported then
        .ok (.ofInterrupt (.failure f)) after
      else
        .error f after

/- A submission of an accepted text answers to the evaluation of
   its program. -/
theorem submit_of_parse
    {source : String}
    {scope : ScopeId}
    {p : Node}
    (h : parse source = .ok p)
    (m : Machine) :
    submit source scope m = answerTo (evaluate p scope m) := by
  unfold submit
  rw [run_of_parse h]
  unfold Eval.toRun
  cases evaluate p scope m <;> rfl

theorem machineOf_answerTo
    (r : EStateM.Result Failure Machine Value) :
    Logged.machineOf (answerTo r) = Logged.machineOf r := by
  cases r with
  | ok v m =>
      simp only [answerTo]
      cases display v <;> rfl
  | error f m =>
      simp only [answerTo]
      split <;> rfl

/- A submission that is rejected leaves the machine as it is. -/
theorem afterSubmission_of_parse_error
    {source : String}
    {f : ParseFailure}
    (hParse : parse source = .error f)
    (m : Machine) :
    m.afterSubmission source = m := by
  unfold Machine.afterSubmission
  rw [machineOf_submit, run_of_parse_error hParse]

/- A submission that is accepted leaves the machine of its
   evaluation. -/
theorem afterSubmission_of_parse
    {source : String}
    {p : Node}
    (hParse : parse source = .ok p)
    (m : Machine) :
    m.afterSubmission source =
      Logged.machineOf (evaluate p Machine.root m) := by
  unfold Machine.afterSubmission
  rw [submit_of_parse hParse, machineOf_answerTo]

/- A text that is answered without an error is accepted. -/
theorem parse_of_submit
    {source : String}
    {scope : ScopeId}
    {m after : Machine}
    {answer : Submission}
    (h : submit source scope m = .ok answer after)
    (hNoError : answer.display.isError = false) :
    ∃ body, parse source = .ok (.program body) := by
  cases hParse : parse source with
  | ok p =>
      rcases exists_statements_of_parseWithin hParse with
        ⟨body, rfl, -⟩
      exact ⟨body, rfl⟩
  | error f =>
      unfold submit at h
      rw [run_of_parse_error hParse] at h
      cases f <;> cases h <;> cases hNoError

/- An answer without an error is one to a value that is no
   error. -/
theorem exists_value_of_answerTo
    {r : EStateM.Result Failure Machine Value}
    {m : Machine}
    {answer : Submission}
    (h : answerTo r = .ok answer m)
    (hNoError : answer.display.isError = false) :
    ∃ v, r = .ok v m ∧ v.isError = false := by
  cases r with
  | ok v after =>
      simp only [answerTo] at h
      split at h
      · next shown hShown =>
          cases h
          rw [display_isError hShown] at hNoError
          exact ⟨v, rfl, hNoError⟩
      · cases h
  | error f after =>
      simp only [answerTo] at h
      split at h
      · cases h
        cases hNoError
      · cases h

/- A program that answers without an error and does not stop at
   a return mark has run all its statements. -/
theorem runStatements_of_submit
    {source : String}
    {scope : ScopeId}
    {m after : Machine}
    {answer : Submission}
    (h : submit source scope m = .ok answer after)
    (hNoError : answer.display.isError = false)
    (hNoReturn : ¬ StopsAtReturn source scope m) :
    ∃ body v,
      parse source = .ok (.program body) ∧
        runStatements body scope m = .ok v after ∧
        v.isFinal = false := by
  rcases parse_of_submit h hNoError with ⟨body, hParse⟩
  rw [submit_of_parse hParse, evaluate_program] at h
  rcases exists_value_of_answerTo h hNoError with
    ⟨v, hResult, hValue⟩
  cases hBody : runStatements body scope m with
  | error f stop =>
      change EStateM.bind (runStatements body scope) _ m = _
        at hResult
      unfold EStateM.bind at hResult
      rw [hBody] at hResult
      cases hResult
  | ok u stop =>
      rw [Eval.bind_eq_of_ok hBody] at hResult
      cases hResult
      refine ⟨body, u, hParse, hBody, ?_⟩
      cases u with
      | returned id v =>
          exact absurd ⟨body, id, v, _, hParse, hBody⟩ hNoReturn
      | error => cases hValue
      | _ => rfl

/- Values of the same essence are shown alike. -/
theorem display_essence
    (v : Value) :
    display v.essence = display v := by
  have hText := v.inspect_essence Platform.displayLimit
  cases v <;>
    simp only [display, Value.essence, Value.isError] at hText ⊢
  all_goals rw [hText]

/- Results of the same essence have the same answer, on machines
   of the same essence. -/
theorem answerTo_of_resultEssence
    {r r' : EStateM.Result Failure Machine Value}
    {m : Machine}
    {answer : Submission}
    (hSame : resultEssence r = resultEssence r')
    (h : answerTo r = .ok answer m) :
    ∃ m', answerTo r' = .ok answer m' ∧
      m'.essence = m.essence := by
  cases r with
  | ok v after =>
      cases r' with
      | error f' after' => cases hSame
      | ok v' after' =>
          injection hSame with hValue hMachine
          have hShown : display v' = display v := by
            rw [← display_essence v', ← hValue,
              display_essence]
          simp only [answerTo] at h ⊢
          rw [hShown]
          cases hDisplay : display v with
          | error f =>
              rw [hDisplay] at h
              cases h
          | ok shown =>
              rw [hDisplay] at h
              cases h
              exact ⟨after', rfl, hMachine.symm⟩
  | error f after =>
      cases r' with
      | ok v' after' => cases hSame
      | error f' after' =>
          injection hSame with hFailure hMachine
          subst hFailure
          simp only [answerTo] at h ⊢
          split at h
          · next hReported =>
              cases h
              rw [if_pos hReported]
              exact ⟨after', rfl, hMachine.symm⟩
          · cases h

------------------------------------------------------------
-- Sessions
------------------------------------------------------------

/-
  Texts are submitted one after another and go through: each of
  them ends with a semicolon, is answered without an error, and
  does not stop at a return mark.
-/
inductive GoesThrough (scope : ScopeId) :
    List String → Machine → Machine → Prop
  | none
      {m : Machine} :
      GoesThrough scope [] m m
  | more
      {source : String}
      {sources : List String}
      {m mid after : Machine}
      {answer : Submission}
      (hClosed : EndsClosed source)
      (hAnswer : submit source scope m = .ok answer mid)
      (hNoError : answer.display.isError = false)
      (hNoReturn : ¬ StopsAtReturn source scope m)
      (hMore : GoesThrough scope sources mid after) :
      GoesThrough scope (source :: sources) m after

/-
  The texts of a session and one more are, as a single text,
  accepted as a program whose statements are those of all of
  them, and these come to where the last text starts.
-/
theorem GoesThrough.joined
    {scope : ScopeId}
    {sources : List String}
    {last : String}
    {m mid : Machine}
    {body : List Node}
    (h : GoesThrough scope sources m mid)
    (hParse : parse last = .ok (.program body))
    (hBody : body ≠ []) :
    ∃ rs earlier,
      parse (String.join (sources ++ [last])) =
          .ok (.program rs) ∧
        rs.map Node.essence =
          (earlier ++ body).map Node.essence ∧
        runStatements (earlier ++ body) scope m =
          runStatements body scope mid := by
  induction h with
  | none =>
      refine ⟨body, [], ?_, rfl, rfl⟩
      simpa [String.join] using hParse
  | @more source sources m mid after answer hClosed hAnswer
      hNoError hNoReturn _ ih =>
      rcases ih with ⟨rs, earlier, hJoined, hSame, hRun⟩
      rcases runStatements_of_submit hAnswer hNoError hNoReturn
        with ⟨first, v, hFirst, hStatements, hGoesOn⟩
      rcases parseWithin_append hFirst hClosed hJoined with
        ⟨all, hAll, hAllSame⟩
      refine ⟨all, first ++ earlier, ?_, ?_, ?_⟩
      · rw [List.cons_append, String.join_cons]
        exact hAll
      · rw [hAllSame, List.map_append, hSame, List.append_assoc,
          ← List.map_append]
      · rw [List.append_assoc, ← hRun]
        exact runStatements_append hStatements hGoesOn
          (by simp [hBody])

/-
  A session is one program.  If texts go through one after
  another and one more, with at least one statement, is submitted
  with some answer, then all of them as a single text are
  submitted with the same answer.  The output is the same, and
  every scope has the same names, bound to values with the same
  written form.
-/
theorem submit_join
    {scope : ScopeId}
    {sources : List String}
    {last : String}
    {body : List Node}
    {m mid after : Machine}
    {answer : Submission}
    (hEarlier : GoesThrough scope sources m mid)
    (hParse : parse last = .ok (.program body))
    (hBody : body ≠ [])
    (hLast : submit last scope mid = .ok answer after) :
    ∃ after',
      submit (String.join (sources ++ [last])) scope m =
          .ok answer after' ∧
        after'.output = after.output ∧
        ∀ id depth,
          ((after'.bindings id).map fun e =>
              (e.1, e.2.inspect depth)) =
            (after.bindings id).map fun e =>
              (e.1, e.2.inspect depth) := by
  rcases hEarlier.joined hParse hBody with
    ⟨rs, earlier, hJoined, hSame, hRun⟩
  have hEssence :
      (Node.program rs).essence =
        (Node.program (earlier ++ body)).essence := by
    rw [Node.essence_program, Node.essence_program, hSame]
  have hEvaluated :
      evaluate (.program (earlier ++ body)) scope m =
        evaluate (.program body) scope mid := by
    rw [evaluate_program, evaluate_program]
    change EStateM.bind _ _ m = EStateM.bind _ _ mid
    unfold EStateM.bind
    rw [hRun]
  have hResults :
      resultEssence (evaluate (.program body) scope mid) =
        resultEssence (evaluate (.program rs) scope m) := by
    rw [← hEvaluated]
    exact (resultEssence_evaluateWithin hEssence _ _ _).symm
  rw [submit_of_parse hParse] at hLast
  rcases answerTo_of_resultEssence hResults hLast with
    ⟨after', hAnswer, hMachines⟩
  rw [← submit_of_parse hJoined] at hAnswer
  refine ⟨after', hAnswer, ?_, fun id depth => ?_⟩
  · change after'.essence.output = after.essence.output
    rw [hMachines]
  · have hBindings :
        ∀ m : Machine,
          ((m.bindings id).map fun e =>
              (e.1, e.2.inspect depth)) =
            (m.essence.bindings id).map fun e =>
              (e.1, e.2.inspect depth) := by
      intro m
      simp [m.bindings_essence, Function.comp_def,
        Value.inspect_essence]
    rw [hBindings after', hBindings after, hMachines]

/- A name is bound, then printed, and then asked for. -/
omit [Platform] in
theorem submit_join_names :
    letI := Platform.usual
    ∃ after,
      submit
          (String.join
            (["let s = \"monkey\";", "puts(s);"] ++ ["s"]))
          Machine.root .new =
        .ok ⟨⟨"monkey", false⟩, none⟩ after ∧
        after.output = "monkey\n" := by
  let := Platform.usual
  let bound : Scopes := #[⟨none, [("s", .str "monkey")]⟩]
  have hFirst :
      submit "let s = \"monkey\";" Machine.root .new =
        .ok ⟨⟨"", false⟩, none⟩ ⟨bound, "", 0⟩ := by
    rfl
  have hSecond :
      submit "puts(s);" Machine.root ⟨bound, "", 0⟩ =
        .ok ⟨⟨"", false⟩, none⟩ ⟨bound, "monkey\n", 0⟩ := by
    rfl
  have hLast :
      submit "s" Machine.root ⟨bound, "monkey\n", 0⟩ =
        .ok ⟨⟨"monkey", false⟩, none⟩
          ⟨bound, "monkey\n", 0⟩ := by
    rfl
  have hParse :
      parse "s" =
        .ok (.program
          [.exprStmt ⟨.ident, "s", 1, 1⟩
            (.identifier ⟨⟨.ident, "s", 1, 1⟩, "s"⟩)]) := by
    rfl
  have hClosed : EndsClosed "let s = \"monkey\";" :=
    ⟨(bodyTokens "let s = \"monkey\";").dropLast,
      ⟨.semicolon, ";", 1, 17⟩, by rfl, rfl⟩
  have hClosed' : EndsClosed "puts(s);" :=
    ⟨(bodyTokens "puts(s);").dropLast,
      ⟨.semicolon, ";", 1, 8⟩, by rfl, rfl⟩
  have hSession :
      GoesThrough Machine.root
        ["let s = \"monkey\";", "puts(s);"] .new
        ⟨bound, "monkey\n", 0⟩ :=
    .more hClosed hFirst rfl
      (not_stopsAtReturn_of_check (by decide +kernel))
      (.more hClosed' hSecond rfl
        (not_stopsAtReturn_of_check (by decide +kernel)) .none)
  rcases submit_join hSession hParse nofun hLast with
    ⟨after, hSubmit, hOutput, -⟩
  exact ⟨after, hSubmit, hOutput⟩

end Monkey
