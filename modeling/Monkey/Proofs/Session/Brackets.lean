import Monkey.Proofs.Parse.Composition
import Monkey.Proofs.Parse.Soundness
import Monkey.Session.EditBuffer

/-
  The brackets of an accepted text.

  `Nested` says that every bracket is closed by one of its own
  kind, and that pairs of brackets lie within each other or
  apart.  So are the brackets of every phrase of the language.
  Hence an accepted text leaves no bracket open, and Enter hands
  it in.

  Main declarations:
    * `Nested`
    * `nested_compositional`
    * `brackets_of_parse`
-/

namespace Monkey

------------------------------------------------------------
-- Nested Brackets
------------------------------------------------------------

/- A token that is no bracket. -/
def Token.IsPlain (t : Token) : Prop :=
  t.kind.opens = false ∧ t.kind.closes = false

/- All brackets come in pairs of one kind, one pair within
   another one or after it. -/
inductive Nested : List Token → Prop
  | nil : Nested []
  | plain
      {t : Token}
      {ts : List Token}
      (hPlain : t.IsPlain)
      (hMore : Nested ts) :
      Nested (t :: ts)
  | enclosed
      {opening closing : Token}
      {inner ts : List Token}
      (hPair : opening.kind.closer? = some closing.kind)
      (hInner : Nested inner)
      (hMore : Nested ts) :
      Nested (opening :: (inner ++ closing :: ts))

/- A bracket that is closed opens, and its partner closes. -/
theorem TokenKind.opens_of_closer
    {kind closing : TokenKind}
    (h : kind.closer? = some closing) :
    kind.opens = true ∧ kind.closes = false ∧
      closing.opens = false ∧ closing.closes = true := by
  cases kind <;> cases h <;> exact ⟨rfl, rfl, rfl, rfl⟩

namespace Nested

variable {ts us : List Token}

theorem append
    (h : Nested ts)
    (h' : Nested us) :
    Nested (ts ++ us) := by
  induction h with
  | nil => exact h'
  | plain hPlain _ ih => exact .plain hPlain ih
  | enclosed hPair hInner _ _ ih =>
      rw [List.cons_append, List.append_assoc,
        List.cons_append]
      exact .enclosed hPair hInner ih

------------------------------------------------------------
-- Counting Brackets
------------------------------------------------------------

/- As many brackets are closed as are opened. -/
theorem count_eq
    (h : Nested ts) :
    ts.countP (·.kind.closes) = ts.countP (·.kind.opens) := by
  induction h with
  | nil => rfl
  | plain hPlain _ ih =>
      simpa [List.countP_cons, hPlain.1, hPlain.2] using ih
  | enclosed hPair _ _ ihInner ih =>
      rcases TokenKind.opens_of_closer hPair with
        ⟨hOpens, hNot, hNot', hCloses⟩
      simp [List.countP_append, hOpens, hNot, hNot', hCloses]
      omega

/- At no point have more brackets been closed than opened. -/
theorem count_le_of_prefix
    (h : Nested ts)
    (hPrefix : us <+: ts) :
    us.countP (·.kind.closes) ≤ us.countP (·.kind.opens) := by
  induction h generalizing us with
  | nil =>
      rw [List.prefix_nil.mp hPrefix]
      exact Nat.le_refl _
  | plain hPlain _ ih =>
      rcases List.prefix_cons_iff.mp hPrefix with
        rfl | ⟨vs, rfl, hMore⟩
      · exact Nat.le_refl _
      · simpa [List.countP_cons, hPlain.1, hPlain.2] using
          ih hMore
  | enclosed hPair hInner _ ihInner ih =>
      rcases TokenKind.opens_of_closer hPair with
        ⟨hOpens, hNot, hNot', hCloses⟩
      rcases List.prefix_cons_iff.mp hPrefix with
        rfl | ⟨vs, rfl, hRest⟩
      · exact Nat.le_refl _
      have hWhole := hInner.count_eq
      rcases hRest with ⟨others, hSplit⟩
      rcases List.append_eq_append_iff.mp hSplit with
        ⟨ws, rfl, -⟩ | ⟨ws, rfl, hAfter⟩
      · -- The prefix ends before the pair is closed.
        have hLe := ihInner (List.prefix_append vs ws)
        simp [hOpens, hNot]
        omega
      · rcases List.prefix_cons_iff.mp ⟨others, hAfter.symm⟩ with
          rfl | ⟨xs, rfl, hLast⟩
        · simp [hOpens, hNot]
          omega
        · have hLe := ih hLast
          simp [List.countP_append, hOpens, hNot, hNot', hCloses]
          omega

/- Nested brackets leave the number of open ones as it was. -/
theorem foldl_bracketStep
    (h : Nested ts)
    (depth : Nat) :
    ts.foldl bracketStep depth = depth := by
  induction h generalizing depth with
  | nil => rfl
  | plain hPlain _ ih =>
      simp only [List.foldl_cons, bracketStep, hPlain.1,
        hPlain.2, Bool.false_eq_true, if_false]
      exact ih depth
  | enclosed hPair _ _ ihInner ih =>
      rcases TokenKind.opens_of_closer hPair with
        ⟨hOpens, -, hNot, hCloses⟩
      simp only [List.foldl_cons, List.foldl_append, bracketStep,
        hOpens, if_true, ihInner, hNot, hCloses,
        Bool.false_eq_true, if_false, Nat.add_sub_cancel]
      exact ih depth

end Nested

------------------------------------------------------------
-- Phrases
------------------------------------------------------------

namespace TokenKind

/- No token but brackets opens or closes. -/
theorem not_bracket_of_inner
    {kind : TokenKind}
    (h : kind ∈ inner) :
    kind.opens = false ∧ kind.closes = false := by
  have hAll :
      ∀ k ∈ inner, k.opens = false ∧ k.closes = false := by
    decide
  exact hAll kind h

theorem Leads.not_bracket
    {kind : TokenKind}
    (h : kind.Leads) :
    kind.opens = false ∧ kind.closes = false := by
  rcases h with rfl | rfl <;> exact ⟨rfl, rfl⟩

end TokenKind

/- Phrases are put together with nested brackets. -/
theorem nested_compositional : Compositional Nested where
  nil := .nil
  single hInner :=
    .plain (TokenKind.not_bracket_of_inner hInner) .nil
  append h h' := h.append h'
  leading hLeads _ hMore := .plain hLeads.not_bracket hMore
  enclosed hPair hInner := .enclosed hPair hInner .nil

------------------------------------------------------------
-- Accepted Texts
------------------------------------------------------------

/- The tokens of an accepted text have nested brackets. -/
theorem nested_of_parseWithin
    {limit : Nat}
    {source : String}
    {p : Node}
    (h : parseWithin limit source = .ok p) :
    Nested (tokens source) := by
  rcases tokens_eq_bodyTokens_append source with
    ⟨stop, hTokens, hStop, -⟩
  have hBody :=
    (spells_of_parseWithin h).inherits nested_compositional
  have hEnd : stop.IsPlain := by
    unfold Token.IsPlain
    rw [hStop]
    exact ⟨rfl, rfl⟩
  rw [hTokens]
  exact hBody.append (.plain hEnd .nil)

/- Enter hands a text in that leaves no bracket open. -/
theorem Editor.enter_of_openDepth
    {e : Editor}
    (h : openDepth (String.ofList e.buffer.text) = 0) :
    e.enter = { e with accepted := e.accepted + 1 } := by
  unfold enter
  rw [h]
  rfl

/-
  The brackets of an accepted text are nested, at no point are
  more of them closed than opened, and none is left open at the
  end.  So Enter never goes on to a new line in such a text: it
  hands the text in.
-/
theorem brackets_of_parse
    (limit : Nat)
    (source : String)
    (p : Node)
    (h : parseWithin limit source = .ok p) :
    Nested (tokens source) ∧
      (∀ ts, ts <+: tokens source →
        ts.countP (·.kind.closes) ≤
          ts.countP (·.kind.opens)) ∧
      openDepth source = 0 ∧
      ∀ e : Editor,
        String.ofList e.buffer.text = source →
          e.enter = { e with accepted := e.accepted + 1 } := by
  have hNested := nested_of_parseWithin h
  have hClosed : openDepth source = 0 :=
    hNested.foldl_bracketStep 0
  refine ⟨hNested, fun ts hPrefix => ?_, hClosed, ?_⟩
  · exact hNested.count_le_of_prefix hPrefix
  · intro e hText
    apply Editor.enter_of_openDepth
    rw [hText]
    exact hClosed

/- A hash with a function in it, and the cursor in the middle. -/
theorem brackets_of_parse_hash :
    let source := "\x7b\"a(\": fn(x) \x7b [x] \x7d,\x7d"
    let e : Editor :=
      { buffer := .ofText source.toList 7
        completions := 0
        accepted := 2 }
    (∃ p, parseWithin 9 source = .ok p) ∧
      openDepth source = 0 ∧
      e.enter = { e with accepted := 3 } := by
  intro source e
  obtain ⟨p, hParse⟩ :
      ∃ p,
        parseWithin 9 "\x7b\"a(\": fn(x) \x7b [x] \x7d,\x7d" =
          .ok p :=
    ⟨_, rfl⟩
  rcases brackets_of_parse 9 source p hParse with
    ⟨-, -, hClosed, hEnter⟩
  exact ⟨⟨p, hParse⟩, hClosed, hEnter e (by decide +kernel)⟩

end Monkey
