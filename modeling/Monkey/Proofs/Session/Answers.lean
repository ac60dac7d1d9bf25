import Monkey.Proofs.Eval.ReturnMarks
import Monkey.Proofs.Eval.Safety
import Monkey.Proofs.Parse.DeepNesting

/-
  Which submissions have an answer.

  A user is told about a text that cannot be parsed and about
  nesting that is too deep for evaluation.  What is left are
  integers that are too long to be written, by `puts` or in the
  result, results nested too deeply, texts that cannot be
  printed, and keys that cannot be encoded.  A submission where
  none of these comes up has an answer, whatever has been
  submitted before.

  Main declarations:
    * `Machine.afterSubmissions`
    * `submit_answers`
    * `submissions_unanswered`
-/

namespace Monkey

------------------------------------------------------------
-- Earlier Submissions
------------------------------------------------------------

variable [Platform]

namespace Machine

/- The machine that a submission leaves, with or without an
   answer. -/
def afterSubmission
    (m : Machine)
    (source : String) :
    Machine :=
  Logged.machineOf (submit source root m)

/- The machine that submissions leave, one after another. -/
def afterSubmissions (sources : List String) : Machine :=
  sources.foldl afterSubmission .new

end Machine

------------------------------------------------------------
-- Parts of a Submission
------------------------------------------------------------

/- A run of a text that cannot be parsed changes nothing. -/
theorem run_of_parse_error
    {source : String}
    {scope : ScopeId}
    {m : Machine}
    {f : ParseFailure}
    (h : parse source = .error f) :
    run source scope m = .error f.interrupt m := by
  unfold run
  rw [h]
  rfl

/- A run of a program is its evaluation. -/
theorem run_of_parse
    {source : String}
    {scope : ScopeId}
    {m : Machine}
    {p : Node}
    (h : parse source = .ok p) :
    run source scope m = (evaluate p scope).toRun m := by
  unfold run
  rw [h]

/- A submission leaves the machine of its run. -/
theorem machineOf_submit
    (source : String)
    (scope : ScopeId)
    (m : Machine) :
    Logged.machineOf (submit source scope m) =
      match run source scope m with
      | .ok _ after => after
      | .error _ after => after := by
  unfold submit
  cases run source scope m with
  | ok v after =>
      dsimp only
      cases display v <;> rfl
  | error i after =>
      cases i with
      | parse e => rfl
      | failure f =>
          dsimp only
          split <;> rfl

/- Submissions leave a machine that comes from programs. -/
theorem Machine.Produced.afterSubmission
    {m : Machine}
    {vs : List Value}
    (h : m.Produced vs)
    (source : String) :
    ∃ vs', (m.afterSubmission source).Produced vs' := by
  unfold Machine.afterSubmission
  rw [machineOf_submit]
  cases hParse : parse source with
  | error f =>
      rw [run_of_parse_error hParse]
      exact ⟨vs, h⟩
  | ok p =>
      rw [run_of_parse hParse]
      unfold Eval.toRun
      cases hEval : evaluate p root m with
      | ok v after => exact ⟨v :: vs, .value h hParse hEval⟩
      | error f after => exact ⟨vs, .failure h hParse hEval⟩

theorem Machine.Produced.afterSubmissions
    {m : Machine}
    {vs : List Value}
    (h : m.Produced vs)
    (sources : List String) :
    ∃ vs',
      (sources.foldl Machine.afterSubmission m).Produced vs' := by
  induction sources generalizing m vs with
  | nil => exact ⟨vs, h⟩
  | cons source later ih =>
      rcases h.afterSubmission source with ⟨vs', hNext⟩
      exact ih hNext

------------------------------------------------------------
-- Answers
------------------------------------------------------------

/- A native value that is not nested too deeply and has no long
   integer inside can be shown. -/
theorem display_of_short
    {v : Value}
    (hNative : v.Within Value.Native)
    (hNested : v.NestedWithin Platform.displayLimit)
    (hShort : v.Short) :
    ∃ shown, display v = .ok shown := by
  cases hText : v.inspect Platform.displayLimit with
  | ok text =>
      unfold display
      split
      · exact ⟨_, rfl⟩
      · rw [hText]
        exact ⟨_, rfl⟩
  | error f =>
      cases Value.inspect_error hText with
      | tooDeep hDeep => exact absurd hNested hDeep
      | longInteger hInside hLong =>
          exact absurd hLong (hShort _ hInside)
      | unwritable hInside hForm =>
          exact absurd (hNative _ hInside) hForm

/-
  After any submissions, a submission has an answer if `puts` is
  given no integer that is too long and nothing that cannot be
  printed, if all texts that are to be keys can be encoded, and
  if the result, should there be one, is not nested too deeply
  and has no integer inside that is too long.
-/
theorem submit_answers
    (sources : List String)
    (source : String)
    (hWritten :
      ¬ Puts (runLog source Machine.root
        (Machine.afterSubmissions sources)) fun v => ¬ v.Short)
    (hPrinted :
      ¬ Puts (runLog source Machine.root
        (Machine.afterSubmissions sources)) Value.Unprintable)
    (hKeys :
      ∀ text,
        AsksKey (runLog source Machine.root
          (Machine.afterSubmissions sources)) text →
        isEncodable text = true)
    (hShown :
      ∀ v after,
        run source Machine.root
            (Machine.afterSubmissions sources) = .ok v after →
          v.NestedWithin Platform.displayLimit ∧ v.Short) :
    ∃ answer after,
      submit source Machine.root
          (Machine.afterSubmissions sources) =
        .ok answer after := by
  obtain ⟨vs, hProduced⟩ :
      ∃ vs, (Machine.afterSubmissions sources).Produced vs :=
    Machine.Produced.new.afterSubmissions sources
  generalize Machine.afterSubmissions sources = m at *
  unfold submit
  cases hParse : parse source with
  | error f =>
      rw [run_of_parse_error hParse]
      cases f <;> exact ⟨_, _, rfl⟩
  | ok p =>
      unfold runLog at hWritten hPrinted hKeys
      simp only [hParse] at hWritten hPrinted hKeys
      rw [run_of_parse hParse] at hShown ⊢
      have hEnds :=
        (evaluate_safelyEnds hProduced hParse Platform.recursionLimit
          Machine.root).1
      unfold Eval.toRun evaluate at *
      cases hEval :
          Eval.evaluateWithin Platform.recursionLimit p Machine.root m with
      | ok v after =>
          rw [hEval] at hEnds
          simp only [hEval] at hShown
          rcases hShown v after rfl with ⟨hNested, hShort⟩
          cases hEnds with
          | value hNative =>
              rcases display_of_short hNative hNested hShort with
                ⟨shown, hDisplay⟩
              simp only [hDisplay]
              exact ⟨_, _, rfl⟩
      | error f after =>
          rw [hEval] at hEnds
          cases hEnds with
          | tooDeep => exact ⟨_, _, rfl⟩
          | longInteger hPuts => exact absurd hPuts hWritten
          | unprintable hPuts => exact absurd hPuts hPrinted
          | unencodable hKey hText =>
              rw [hKeys _ hKey] at hText
              cases hText

/- A check that neither `puts` nor a key comes up at all. -/
def Event.isHarmless : Event → Bool
  | .yields _ _ _ (.builtin .puts) _ => false
  | .yields (.index ..) _ _ _ _ => false
  | .yields (.hash ..) _ _ _ _ => false
  | _ => true

omit [Platform] in
theorem not_puts_of_isHarmless
    {log : List Event}
    (h : log.all Event.isHarmless = true)
    (kind : Value → Prop) :
    ¬ Puts log kind := by
  rintro ⟨t, callee, args, scope, m, hCallee, -⟩
  have hCheck := List.all_eq_true.mp h _ hCallee
  cases hCheck

omit [Platform] in
theorem not_asksKey_of_isHarmless
    {log : List Event}
    (h : log.all Event.isHarmless = true)
    (text : String) :
    ¬ AsksKey log text := by
  rintro ⟨parent, part, scope, m, hYields, hKeys⟩
  have hCheck := List.all_eq_true.mp h _ hYields
  cases parent with
  | index => cases hCheck
  | hash => cases hCheck
  | _ => exact hKeys

/- A submission that uses what an earlier one has bound. -/
omit [Platform] in
theorem submit_answers_earlier :
    letI := Platform.usual
    ∃ answer after,
      submit "first(names)" Machine.root
          (Machine.afterSubmissions
            ["let names = [\"monkey\"];"]) =
        .ok answer after := by
  let := Platform.usual
  have hRun :
      run "first(names)" Machine.root
          (Machine.afterSubmissions
            ["let names = [\"monkey\"];"]) =
        .ok (.str "monkey")
          ⟨#[⟨none, [("names", .array 0 [.str "monkey"])]⟩],
            "", 1⟩ := by
    rfl
  have hCheck :
      (runLog "first(names)" Machine.root
          (Machine.afterSubmissions
            ["let names = [\"monkey\"];"])).all
          Event.isHarmless =
        true := by
    rfl
  have hNested :
      (Value.str "monkey").NestedWithin Platform.displayLimit :=
    Value.IsFlat.nestedWithin trivial (by decide)
  have hLong : ¬ (Value.str "monkey").IsLong := by
    rintro ⟨n, hInt, -⟩
    cases hInt
  have hShort : (Value.str "monkey").Short :=
    Value.IsFlat.within trivial hLong
  refine submit_answers _ _ (not_puts_of_isHarmless hCheck _)
    (not_puts_of_isHarmless hCheck _)
    (fun text hKey =>
      absurd hKey (not_asksKey_of_isHarmless hCheck text)) ?_
  intro v after hResult
  rw [hRun] at hResult
  cases hResult
  exact ⟨hNested, hShort⟩

------------------------------------------------------------
-- Submissions Without an Answer
------------------------------------------------------------

/- After some submissions, another one ends in a failure instead
   of an answer. -/
def Unanswered
    (sources : List String)
    (source : String)
    (f : Failure) : Prop :=
  ∃ after,
    submit source Machine.root
        (Machine.afterSubmissions sources) =
      .error f after

theorem unanswered_of_check
    {sources : List String}
    {source : String}
    {f : Failure}
    (h :
      failsWith f
        (submit source Machine.root
          (Machine.afterSubmissions sources)) = true) :
    Unanswered sources source f :=
  exists_of_failsWith h

/- A text in a number of brackets. -/
def nested
    (depth : Nat)
    (text : String) :
    String :=
  match depth with
  | 0 => text
  | depth + 1 => "[" ++ nested depth text ++ "]"

/- A first submission has no answer where its result cannot be
   shown. -/
theorem unanswered_of_display
    {source : String}
    {v : Value}
    {after : Machine}
    {f : Failure}
    (hRun : run source Machine.root .new = .ok v after)
    (hDisplay : display v = .error f) :
    Unanswered [] source f := by
  have hNew : Machine.afterSubmissions [] = .new := rfl
  refine ⟨after, ?_⟩
  unfold submit
  rw [hNew, hRun]
  simp only [hDisplay]

/- A function is given as it is, however high its body, but it
   cannot be shown then. -/
omit [Platform] in
theorem unanswered_functionOfCalls :
    letI := Platform.usual
    Unanswered [] (functionOfCalls 490) .tooDeep := by
  let := Platform.usual
  obtain ⟨first, word, body, hParse, hHigh⟩ :
      ∃ first word body,
        parse (functionOfCalls 490) =
            .ok (.program [.exprStmt first
              (.function word [] body)]) ∧
          body.renderWithin 489 = .error .tooDeep :=
    exists_function_tooHigh (by decide) (by decide)
  have hDisplay :
      display (.function 0 [] body Machine.root) =
        .error .tooDeep := by
    change (body.renderWithin 489 >>= _) >>= _ = _
    rw [hHigh]
    rfl
  exact unanswered_of_display (run_of_parse hParse) hDisplay

/- What a submission without an answer may be about: a long
   integer as a result or for `puts`, a result nested too deeply,
   a function too high, half of a surrogate pair for `puts`, and
   another one for a key. -/
omit [Platform] in
theorem submissions_unanswered :
    letI := Platform.usual
    let lone := String.singleton (Platform.half 0xDCFF)
    Unanswered ["let s = fn(x) \x7b x * x \x7d;"]
        "s(s(s(s(s(s(s(s(s(s(s(s(s(10)))))))))))))"
        .longInteger ∧
      Unanswered ["let s = fn(x) \x7b x * x \x7d;"]
        "puts(s(s(s(s(s(s(s(s(s(s(s(s(s(10))))))))))))))"
        .longInteger ∧
      Unanswered
        ["let wrap = fn(x) \x7b " ++ nested 50 "x" ++ " \x7d;"]
        "wrap(wrap(wrap(wrap(wrap(wrap(wrap(wrap(wrap(wrap(1))))))))))"
        .tooDeep ∧
      Unanswered [] (functionOfCalls 490) .tooDeep ∧
      Unanswered [] ("puts(\"" ++ lone ++ "\")") .unprintable ∧
      Unanswered [] ("\x7b\"" ++ lone ++ "\": 1\x7d")
        (.unencodable lone) := by
  let := Platform.usual
  intro lone
  refine ⟨?_, ?_, ?_, unanswered_functionOfCalls, ?_, ?_⟩
  · exact unanswered_of_check (by decide +kernel)
  · exact unanswered_of_check (by decide +kernel)
  · exact unanswered_of_check (by decide +kernel)
  · exact unanswered_of_check (by decide +kernel)
  · exact unanswered_of_check (by decide +kernel)

end Monkey
