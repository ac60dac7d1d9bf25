import Monkey.Proofs.Eval.Essence
import Monkey.Proofs.Parse.ErrorPlace
import Monkey.Proofs.Parse.MovedTokens
import Monkey.Proofs.Session.OneProgram

/-
  Layout never matters.

  Texts whose tokens have the same kinds and texts, one by one,
  are accepted alike or rejected alike, whatever stands between
  the tokens.  Their programs differ in the places of tokens, and
  no user can see these in what a program does.

  Main declarations:
    * `Observation`
    * `SameTokens`
    * `layout_irrelevant`
    * `written_afterSubmissions_of_sameTokens`
-/

namespace Monkey

------------------------------------------------------------
-- What Can Be Seen
------------------------------------------------------------

variable [Platform]

/- The names bound in a scope, each with the written form of its
   value up to a number of levels. -/
def Machine.written
    (m : Machine)
    (id : ScopeId)
    (depth : Nat) :
    List (String × Except Failure String) :=
  (m.bindings id).map fun e => (e.1, e.2.inspect depth)

/-
  What can be seen when a computation is over: its outcome, the
  printed text, and the bindings of each scope, with written
  forms of any depth.
-/
structure Observation (ε α : Type) where
  outcome : Except ε α
  output : String
  bindings :
    ScopeId → Nat → List (String × Except Failure String)

section

variable {ε α : Type}

/- What can be seen of a result. -/
def observe :
    EStateM.Result ε Machine α → Observation ε α
  | .ok a m => ⟨.ok a, m.output, m.written⟩
  | .error e m => ⟨.error e, m.output, m.written⟩

end

/- A run with the display of its value. -/
def shownRun
    (source : String)
    (scope : ScopeId) :
    Run (Except Failure Display) :=
  display <$> run source scope

/- The result of an evaluation with the display of its value, as
   that of a run. -/
def shown :
    EStateM.Result Failure Machine Value →
      EStateM.Result Interrupt Machine (Except Failure Display)
  | .ok v m => .ok (display v) m
  | .error f m => .error (.failure f) m

/- A run of an accepted text shows the evaluation of its
   program. -/
theorem shownRun_of_parse
    {source : String}
    {scope : ScopeId}
    {m : Machine}
    {p : Node}
    (h : parse source = .ok p) :
    shownRun source scope m = shown (evaluate p scope m) := by
  change EStateM.map display (run source scope) m = _
  unfold EStateM.map
  rw [run_of_parse h]
  unfold Eval.toRun
  cases evaluate p scope m <;> rfl

------------------------------------------------------------
-- Only the Essence Can Be Seen
------------------------------------------------------------

omit [Platform] in
theorem Machine.written_essence
    (m : Machine) :
    m.essence.written = m.written := by
  funext id depth
  simp [written, m.bindings_essence, Function.comp_def,
    Value.inspect_essence]

omit [Platform] in
theorem Machine.output_essence
    (m : Machine) :
    m.essence.output = m.output :=
  rfl

theorem observe_shown_essence
    (r : EStateM.Result Failure Machine Value) :
    observe (shown (resultEssence r)) = observe (shown r) := by
  cases r <;>
    simp [resultEssence, shown, observe, display_essence,
      Machine.written_essence, Machine.output_essence]

theorem observe_answerTo_essence
    (r : EStateM.Result Failure Machine Value) :
    observe (answerTo (resultEssence r)) =
      observe (answerTo r) := by
  cases r with
  | ok v m =>
      simp only [resultEssence, answerTo, display_essence]
      cases display v <;>
        simp [observe, Machine.written_essence,
          Machine.output_essence]
  | error f m =>
      simp only [resultEssence, answerTo]
      split <;>
        simp [observe, Machine.written_essence,
          Machine.output_essence]

------------------------------------------------------------
-- Programs That Differ in Places
------------------------------------------------------------

/- Programs that differ in places only have results of the same
   essence on machines of the same essence. -/
theorem resultEssence_evaluate_of_unplaced
    {p p' : Node}
    {m m' : Machine}
    (hTree : p.unplaced = p'.unplaced)
    (hSame : m.essence = m'.essence)
    (scope : ScopeId) :
    resultEssence (evaluate p scope m) =
      resultEssence (evaluate p' scope m') := by
  have hEssence : p.essence = p'.essence := by
    rw [← p.essence_unplaced, hTree, p'.essence_unplaced]
  unfold evaluate
  rw [← evaluateWithin_essence, ← evaluateWithin_essence,
    hEssence, hSame]

section

variable {source source' : String}
variable {p p' : Node}
variable {m m' : Machine}
variable (hParse : parse source = .ok p)
variable (hParse' : parse source' = .ok p')
variable (hTree : p.unplaced = p'.unplaced)
variable (hSame : m.essence = m'.essence)

include hParse hParse' hTree hSame

theorem observe_shownRun_of_unplaced
    (scope : ScopeId) :
    observe (shownRun source scope m) =
      observe (shownRun source' scope m') := by
  have hResults :=
    resultEssence_evaluate_of_unplaced hTree hSame scope
  rw [shownRun_of_parse hParse, ← observe_shown_essence,
    hResults, observe_shown_essence,
    ← shownRun_of_parse hParse']

theorem observe_submit_of_unplaced
    (scope : ScopeId) :
    observe (submit source scope m) =
      observe (submit source' scope m') := by
  have hResults :=
    resultEssence_evaluate_of_unplaced hTree hSame scope
  rw [submit_of_parse hParse, ← observe_answerTo_essence,
    hResults, observe_answerTo_essence,
    ← submit_of_parse hParse']

end

------------------------------------------------------------
-- Texts with the Same Tokens
------------------------------------------------------------

/- Two texts have tokens of the same kinds and texts. -/
def SameTokens (source source' : String) : Prop :=
  List.Forall₂ Token.Alike (tokens source) (tokens source')

instance (t u : Token) : Decidable (t.Alike u) :=
  inferInstanceAs (Decidable (_ ∧ _))

instance (source source' : String) :
    Decidable (SameTokens source source') :=
  inferInstanceAs (Decidable (List.Forall₂ _ _ _))

/- A text with the same tokens as another one is that text with
   its tokens moved, and is parsed like it. -/
theorem SameTokens.exists_move
    {source source' : String}
    (hTokens : SameTokens source source') :
    ∃ move : Token → Token,
      (∀ t : Token, t.Alike (move t)) ∧
        tokens source' = (tokens source).map move ∧
        parse source' = movedOutcome move (parse source) := by
  rcases Monkey.exists_move (tokens_nodup source) hTokens with
    ⟨move, hMove, hMoved⟩
  exact ⟨move, hMove, hMoved,
    parseWithin_moved Platform.nestingLimit hMove hMoved⟩

/-
  A text with the same tokens as an accepted one is accepted, and
  their programs differ in places only.
-/
theorem SameTokens.parse_ok
    {source source' : String}
    {p : Node}
    (hTokens : SameTokens source source')
    (hParse : parse source = .ok p) :
    ∃ p', parse source' = .ok p' ∧
      p.unplaced = p'.unplaced := by
  rcases hTokens.exists_move with ⟨move, hMove, -, hMoved⟩
  rw [hParse] at hMoved
  exact ⟨p.moved move, hMoved, (p.unplaced_moved hMove).symm⟩

/-
  A text with the same tokens as a rejected one is rejected for
  the same cause, at the token in the same position.
-/
theorem SameTokens.parse_error
    {source source' : String}
    {e : ParseError}
    (hTokens : SameTokens source source')
    (hParse : parse source = .error (.error e)) :
    ∃ e', ∃ i : Nat,
      parse source' = .error (.error e') ∧
        e.cause = e'.cause ∧
        (tokens source)[i]? = some e.token ∧
        (tokens source')[i]? = some e'.token := by
  rcases hTokens.exists_move with ⟨move, -, hTokens', hMoved⟩
  rcases exists_viable_before_error hParse with
    ⟨ts, rest, hSplit, -, -⟩
  have hAt : (tokens source)[ts.length]? = some e.token := by
    rw [hSplit]
    simp
  rw [hParse] at hMoved
  refine ⟨e.moved move, ts.length, hMoved, rfl, hAt, ?_⟩
  rw [hTokens', List.getElem?_map, hAt]
  rfl

/- A text with the same tokens as one that is nested too deeply
   is so as well. -/
theorem SameTokens.parse_tooDeep
    {source source' : String}
    (hTokens : SameTokens source source')
    (hParse : parse source = .error .tooDeep) :
    parse source' = .error .tooDeep := by
  rcases hTokens.exists_move with ⟨move, -, -, hMoved⟩
  rw [hParse] at hMoved
  exact hMoved

------------------------------------------------------------
-- Layout
------------------------------------------------------------

/-
  Of two texts whose tokens have the same kinds and texts, both
  are accepted or both are rejected.  If they are accepted, their
  programs differ in places only, and nothing else can be seen
  when they are run or submitted on machines that differ in no
  more than that.  If they are rejected, it is for the same cause
  and at the token in the same position, unless both are nested
  too deeply.
-/
theorem layout_irrelevant
    (source source' : String)
    (m m' : Machine)
    (scope : ScopeId)
    (hTokens : SameTokens source source')
    (hSame : m.essence = m'.essence) :
    (∃ p p',
      parse source = .ok p ∧
        parse source' = .ok p' ∧
        p.unplaced = p'.unplaced ∧
        observe (shownRun source scope m) =
          observe (shownRun source' scope m') ∧
        observe (submit source scope m) =
          observe (submit source' scope m')) ∨
    (∃ e e', ∃ i : Nat,
      parse source = .error (.error e) ∧
        parse source' = .error (.error e') ∧
        e.cause = e'.cause ∧
        (tokens source)[i]? = some e.token ∧
        (tokens source')[i]? = some e'.token) ∨
    (parse source = .error .tooDeep ∧
      parse source' = .error .tooDeep) := by
  cases hParse : parse source with
  | ok p =>
      rcases hTokens.parse_ok hParse with ⟨p', hParse', hTree⟩
      exact .inl ⟨p, p', rfl, hParse', hTree,
        observe_shownRun_of_unplaced hParse hParse' hTree hSame
          scope,
        observe_submit_of_unplaced hParse hParse' hTree hSame
          scope⟩
  | error f =>
      cases f with
      | error e =>
          rcases hTokens.parse_error hParse with
            ⟨e', i, hParse', hFound⟩
          exact .inr (.inl ⟨e, e', i, rfl, hParse', hFound⟩)
      | tooDeep =>
          exact .inr (.inr ⟨rfl, hTokens.parse_tooDeep hParse⟩)

/- A function is shown the same however it is laid out. -/
omit [Platform] in
theorem layout_irrelevant_function :
    letI := Platform.usual
    let dense := "fn(x)\x7bx\x7d"
    let spread := "fn (x)\n  \x7b x \x7d"
    SameTokens dense spread ∧
      observe (submit dense Machine.root .new) =
        observe (submit spread Machine.root .new) := by
  let := Platform.usual
  intro dense spread
  have hTokens : SameTokens dense spread := by
    decide +kernel
  obtain ⟨p, hParse⟩ : ∃ p, parse "fn(x)\x7bx\x7d" = .ok p :=
    ⟨_, rfl⟩
  have hLayout :=
    layout_irrelevant dense spread .new .new Machine.root
      hTokens rfl
  rw [hParse] at hLayout
  rcases hLayout with
    ⟨_, _, -, -, -, -, hSubmit⟩ | ⟨_, _, _, hError, -⟩ |
      ⟨hError, -⟩
  · exact ⟨hTokens, hSubmit⟩
  · cases hError
  · cases hError

------------------------------------------------------------
-- Sessions
------------------------------------------------------------

omit [Platform] in
theorem machineOf_resultEssence
    (r : EStateM.Result Failure Machine Value) :
    Logged.machineOf (resultEssence r) =
      (Logged.machineOf r).essence := by
  cases r <;> rfl

/- Submissions of texts with the same tokens leave machines of
   the same essence, accepted or not. -/
theorem SameTokens.afterSubmission_essence
    {source source' : String}
    {m m' : Machine}
    (hTokens : SameTokens source source')
    (hSame : m.essence = m'.essence) :
    (m.afterSubmission source).essence =
      (m'.afterSubmission source').essence := by
  cases hParse : parse source with
  | ok p =>
      rcases hTokens.parse_ok hParse with ⟨p', hParse', hTree⟩
      rw [afterSubmission_of_parse hParse,
        afterSubmission_of_parse hParse',
        ← machineOf_resultEssence, ← machineOf_resultEssence,
        resultEssence_evaluate_of_unplaced hTree hSame]
  | error f =>
      cases f with
      | error e =>
          rcases hTokens.parse_error hParse with
            ⟨e', -, hParse', -⟩
          rw [afterSubmission_of_parse_error hParse,
            afterSubmission_of_parse_error hParse', hSame]
      | tooDeep =>
          rw [afterSubmission_of_parse_error hParse,
            afterSubmission_of_parse_error
              (hTokens.parse_tooDeep hParse), hSame]

/- Sessions of texts with the same tokens, one by one, lead to
   machines that show the same. -/
theorem written_afterSubmissions_of_sameTokens
    {sources sources' : List String}
    (hTokens : List.Forall₂ SameTokens sources sources') :
    (Machine.afterSubmissions sources).output =
        (Machine.afterSubmissions sources').output ∧
      (Machine.afterSubmissions sources).written =
        (Machine.afterSubmissions sources').written := by
  have hSession :
      ∀ m m' : Machine,
        m.essence = m'.essence →
          (sources.foldl Machine.afterSubmission m).essence =
            (sources'.foldl Machine.afterSubmission
              m').essence := by
    induction hTokens with
    | nil => exact fun m m' hSame => hSame
    | cons hFirst _ ih =>
        exact fun m m' hSame =>
          ih _ _ (hFirst.afterSubmission_essence hSame)
  have hEnd := hSession .new .new rfl
  change (Machine.afterSubmissions sources).essence =
    (Machine.afterSubmissions sources').essence at hEnd
  refine ⟨?_, ?_⟩
  · rw [← Machine.output_essence, hEnd, Machine.output_essence]
  · rw [← Machine.written_essence, hEnd,
      Machine.written_essence]

end Monkey
