import Monkey.Proofs.Parse.Spelling
import Monkey.Proofs.Parse.Steps
import Monkey.Proofs.Token.EndOfText

/-
  What tokens spell, the parser reads.

  `Reads` says for each phrase which rule reads it, and where
  the rule stops.  For expressions this is said in terms of what
  is left to do: reading one is as good as going on after it
  with the expression at hand.  So the left operand of an infix
  operator, which is read by the same loop as the operator, can
  be an expression like any other.

  A level of nesting takes a token, so as many levels as there
  are tokens are enough.

  Main declarations:
    * `Parse.Reads`
    * `Parse.Reads.of_spells`
-/

namespace Monkey

------------------------------------------------------------
-- Strengths
------------------------------------------------------------

theorem TokenKind.IsInfix.ne_else
    {kind : TokenKind}
    (h : kind.IsInfix) :
    kind ≠ .elseWord := by
  rintro rfl
  exact absurd h (by decide)

/- Where something suits, a call may follow. -/
theorem Precedence.Admits.lt_call
    {asked b : Precedence}
    (h : asked.Admits b) :
    asked.rank < Precedence.call.rank := by
  rcases h with hLess | ⟨rfl, -⟩
  · exact Nat.lt_of_lt_of_le hLess b.rank_le_call
  · decide

namespace Parse

variable {z t u : Token}
variable {r ts us : List Token}
variable {d n : Nat}

------------------------------------------------------------
-- Where Rules Stop
------------------------------------------------------------

/- A token that does not go on with the expression before
   it. -/
structure Separates (u : Token) : Prop where
  notElse : u.kind ≠ .elseWord
  loose : u.kind.precedence = .lowest

theorem Separates.of_kind
    {kind : TokenKind}
    (hKind : u.kind = kind)
    (hSeparates :
      kind ≠ .elseWord ∧ kind.precedence = .lowest) :
    Separates u := by
  subst hKind
  exact ⟨hSeparates.1, hSeparates.2⟩

/-
  What reading a phrase means, rule by rule.  A rule for lists
  is entered with the token before the list current.
-/
def Reads : Phrase → List Token → Prop
  | .expression e b, ts =>
      ∀ {d : Nat} {asked : Precedence} {u : Token}
        {r : List Token} {z : Token},
        ts.length ≤ d + 1 →
        asked.Admits b →
        u.kind ≠ .elseWord →
        u.kind.precedence.rank ≤ b.rank →
        ∃ t n,
          r.length + 1 < n ∧
            expressionStep (expression d) asked
                ⟨ts ++ u :: r, z⟩ =
              continuations (expression d) asked n e
                ⟨t :: u :: r, z⟩
  | .alternative branch, ts =>
      ∀ {d : Nat} {t u : Token} {r : List Token}
        {z : Token},
        ts.length ≤ d →
        u.kind ≠ .elseWord →
        ∃ t',
          alternative (expression d)
              ⟨t :: (ts ++ u :: r), z⟩ =
            .ok branch ⟨t' :: u :: r, z⟩
  | .block b, ts =>
      ∀ {d : Nat} {r : List Token} {z : Token},
        ts.length ≤ d →
        ∃ t',
          block (expression d) ⟨ts ++ r, z⟩ =
            .ok b ⟨t' :: r, z⟩
  | .items es, ts =>
      ∀ {d : Nat} {t u : Token} {r : List Token}
        {z : Token},
        ts.length ≤ d →
        (u.kind = .rparen ∨ u.kind = .rbracket) →
        expressionList (expression d) u.kind
            ⟨t :: (ts ++ u :: r), z⟩ =
          .ok es ⟨u :: r, z⟩
  | .furtherItems es, ts =>
      ∀ {d n : Nat} {t u : Token} {r : List Token}
        {z : Token},
        ts.length ≤ d →
        ts.length < n →
        (u.kind = .rparen ∨ u.kind = .rbracket) →
        ∃ t',
          moreExpressions (expression d) n
              ⟨t :: (ts ++ u :: r), z⟩ =
            .ok es ⟨t' :: u :: r, z⟩
  | .pairs ps, ts =>
      ∀ {d n : Nat} {t u : Token} {r : List Token}
        {z : Token},
        ts.length ≤ d →
        ts.length < n →
        u.kind = .rbrace →
        ∃ t',
          hashPairs (expression d) n
              ⟨t :: (ts ++ u :: r), z⟩ =
            .ok ps ⟨t' :: u :: r, z⟩
  | .statement s, ts =>
      ∀ {d : Nat} {u : Token} {r : List Token}
        {z : Token},
        ts.length ≤ d →
        (u.kind = .semicolon →
          statement (expression d) ⟨ts ++ u :: r, z⟩ =
            .ok s ⟨u :: r, z⟩) ∧
        (u.kind ≠ .semicolon →
          Separates u →
          (s.IsBareReturn →
            u.kind = .rbrace ∨ u.kind = .eof) →
          ∃ t,
            statement (expression d)
                ⟨ts ++ u :: r, z⟩ =
              .ok s ⟨t :: u :: r, z⟩)
  | .statements ss, ts =>
      ∀ {d n : Nat} {u : Token} {r : List Token}
        {z : Token},
        ts.length ≤ d →
        ts.length < n →
        (u.kind = .rbrace →
          blockStatements (expression d) n
              ⟨ts ++ u :: r, z⟩ =
            .ok ss ⟨u :: r, z⟩) ∧
        (u.kind = .eof →
          programStatements (expression d) n
              ⟨ts ++ u :: r, z⟩ =
            .ok ss ⟨u :: r, z⟩)
  | .program p, ts =>
      ∀ {d : Nat} {u : Token} {r : List Token}
        {z : Token},
        ts.length ≤ d →
        u.kind = .eof →
        program (expression d) ⟨ts ++ u :: r, z⟩ =
          .ok p ⟨u :: r, z⟩

------------------------------------------------------------
-- Nested Expressions
------------------------------------------------------------

/- An expression is read up to a token that binds no more
   tightly than asked. -/
theorem Reads.expression_run
    {asked b : Precedence}
    {e : Node}
    (h : Reads (.expression e b) ts)
    (hTokens : ts ≠ [])
    (hDepth : ts.length ≤ d)
    (hAdmits : asked.Admits b)
    (hElse : u.kind ≠ .elseWord)
    (hLoose : u.kind.precedence.rank ≤ asked.rank) :
    ∃ t,
      expression d asked ⟨ts ++ u :: r, z⟩ =
        .ok e ⟨t :: u :: r, z⟩ := by
  have hSome : 0 < ts.length := List.length_pos_iff.mpr hTokens
  obtain ⟨d, rfl⟩ : ∃ n, d = n + 1 :=
    ⟨d - 1, by omega⟩
  have hStrength : asked.rank ≤ b.rank := by
    rcases hAdmits with hLess | ⟨rfl, rfl⟩
    · exact Nat.le_of_lt hLess
    · exact Nat.le_refl _
  rcases h (d := d) (r := r) (z := z) hDepth
      hAdmits hElse (Nat.le_trans hLoose hStrength) with
    ⟨t, n, hRounds, hStep⟩
  obtain ⟨n, rfl⟩ : ∃ m, n = m + 1 := ⟨n - 1, by omega⟩
  refine ⟨t, ?_⟩
  rw [expression, hStep, continuations, bind_apply, peek_apply]
  simp only [Nat.not_lt.mpr hLoose, if_false, pure_apply]

/- An expression that is read with a certain number of levels, up
   to a token that does not go on with it. -/
def RunsAt
    (d : Nat)
    (e : Node)
    (ts : List Token) : Prop :=
  ∀ {u : Token} {r : List Token} {z : Token},
    Separates u →
    ∃ t,
      expression d .lowest ⟨ts ++ u :: r, z⟩ =
        .ok e ⟨t :: u :: r, z⟩

/- What every rule but the operators asks for. -/
def ReadsLowest
    (e : Node)
    (ts : List Token) : Prop :=
  ∀ {d : Nat} {u : Token} {r : List Token} {z : Token},
    ts.length ≤ d →
    Separates u →
    ∃ t,
      expression d .lowest ⟨ts ++ u :: r, z⟩ =
        .ok e ⟨t :: u :: r, z⟩

theorem ReadsLowest.runsAt
    {e : Node}
    (h : ReadsLowest e ts)
    (hDepth : ts.length ≤ d) :
    RunsAt d e ts :=
  fun hSeparates => h hDepth hSeparates

theorem Reads.lowest
    {own : Token → Token → Prop}
    {e : Node}
    {b : Precedence}
    (h : Reads (.expression e b) ts)
    (hSpells : Spells own (.expression e b) ts) :
    ReadsLowest e ts := by
  intro d u r z hDepth hSeparates
  have hTokens : ts ≠ [] := by
    rcases hSpells.expression_opens with ⟨t, us, rfl, -⟩
    simp
  exact h.expression_run hTokens hDepth
    (.inl hSpells.strength_pos) hSeparates.notElse
    (Nat.le_of_eq (congrArg Precedence.rank hSeparates.loose))

/- Expressions that are read before any operator. -/
def ReadsFirst
    (e : Node)
    (b : Precedence)
    (ts : List Token) : Prop :=
  ∀ {d : Nat} {u : Token} {r : List Token} {z : Token},
    ts.length ≤ d + 1 →
    u.kind ≠ .elseWord →
    u.kind.precedence.rank ≤ b.rank →
    ∃ t,
      firstPart (expression d) ⟨ts ++ u :: r, z⟩ =
        .ok e ⟨t :: u :: r, z⟩

theorem ReadsFirst.reads
    {e : Node}
    {b : Precedence}
    (h : ReadsFirst e b ts) :
    Reads (.expression e b) ts := by
  intro d asked u r z hDepth _ hElse hLoose
  rcases h (r := r) (z := z) hDepth hElse hLoose with
    ⟨t, hFirst⟩
  refine ⟨t, r.length + 3, by omega, ?_⟩
  rw [expressionStep, bind_apply, hFirst]
  rfl

------------------------------------------------------------
-- First Parts
------------------------------------------------------------

/- A leaf is its only token. -/
theorem readsFirst_leaf
    {e : Node}
    (h :
      ∀ (expr : Precedence → Parse Node) (r : List Token)
        (z : Token),
        firstPart expr ⟨t :: r, z⟩ =
          .ok e ⟨t :: r, z⟩) :
    ReadsFirst e .call [t] :=
  fun _ _ _ => ⟨t, h _ _ _⟩

theorem readsFirst_identifier
    (hKind : t.kind = .ident) :
    ReadsFirst
      (.identifier { token := t, name := t.literal }) .call
      [t] :=
  readsFirst_leaf fun _ _ _ => by
    simp only [firstPart, bind_apply, current_apply, hKind,
      pure_apply]

theorem readsFirst_integer
    (hKind : t.kind = .int)
    (hDigits : t.literal.length ≤ digitLimit) :
    ReadsFirst (.integer t (digitsValue t.literal.toList))
      .call [t] :=
  readsFirst_leaf fun _ _ _ => by
    simp only [firstPart, bind_apply, current_apply, hKind,
      integerLiteral, readInteger?, hDigits, if_true,
      pure_apply]

theorem readsFirst_string
    (hKind : t.kind = .string) :
    ReadsFirst (.string t t.literal) .call [t] :=
  readsFirst_leaf fun _ _ _ => by
    simp only [firstPart, bind_apply, current_apply, hKind,
      pure_apply]

theorem readsFirst_boolTrue
    (hKind : t.kind = .trueWord) :
    ReadsFirst (.boolean t true) .call [t] :=
  readsFirst_leaf fun _ _ _ => by
    simp only [firstPart, bind_apply, current_apply, hKind,
      pure_apply]

theorem readsFirst_boolFalse
    (hKind : t.kind = .falseWord) :
    ReadsFirst (.boolean t false) .call [t] :=
  readsFirst_leaf fun _ _ _ => by
    simp only [firstPart, bind_apply, current_apply, hKind,
      pure_apply]

theorem readsFirst_prefixOp
    {own : Token → Token → Prop}
    {right : Node}
    {b : Precedence}
    (hKind : t.kind.IsSign)
    (hSpells : Spells own (.expression right b) ts)
    (hRight : Reads (.expression right b) ts)
    (hStrength : Precedence.unary.rank ≤ b.rank) :
    ReadsFirst (.prefixOp t t.literal right) .unary
      (t :: ts) := by
  intro d u r z hDepth hElse hLoose
  have hTokens : ts ≠ [] := by
    rcases hSpells.expression_opens with ⟨t, us, rfl, -⟩
    simp
  have hAdmits : Precedence.unary.Admits b := by
    rcases Nat.lt_or_eq_of_le hStrength with hLess | hEq
    · exact .inl hLess
    · refine .inr ⟨rfl, ?_⟩
      cases b <;> first | rfl | exact absurd hEq (by decide)
  rcases hRight.expression_run (r := r) (z := z) hTokens
      (Nat.le_of_succ_le_succ hDepth) hAdmits hElse hLoose with
    ⟨t', hRun⟩
  refine ⟨t', ?_⟩
  rcases hKind with hKind | hKind <;>
    simp only [firstPart, bind_apply, current_apply, hKind,
      prefixExpression, List.cons_append, advance_apply, hRun,
      pure_apply]

theorem readsFirst_group
    {opening closing : Token}
    {e : Node}
    (hOpening : opening.kind = .lparen)
    (hInner : ReadsLowest e ts)
    (hClosing : closing.kind = .rparen) :
    ReadsFirst e .call (opening :: (ts ++ [closing])) := by
  intro d u r z hDepth _ _
  have hInnerDepth : ts.length ≤ d := by
    simp only [List.length_cons, List.length_append] at hDepth
    omega
  rcases hInner (r := u :: r) (z := z) hInnerDepth
      (.of_kind hClosing (by decide)) with ⟨t, hRun⟩
  refine ⟨closing, ?_⟩
  simp only [firstPart, bind_apply, current_apply, hOpening,
    groupedExpression, List.cons_append, List.append_assoc,
    List.nil_append, advance_apply, hRun,
    expect_apply hClosing, pure_apply]

theorem readsFirst_ifElse
    {word opening closing : Token}
    {condition consequence : Node}
    {otherwise : Option Node}
    {cs es : List Token}
    (hWord : word.kind = .ifWord)
    (hOpening : opening.kind = .lparen)
    (hCondition : ReadsLowest condition cs)
    (hClosing : closing.kind = .rparen)
    (hConsequence : Reads (.block consequence) ts)
    (hBrace : ∃ brace ts', ts = brace :: ts' ∧
      brace.kind = .lbrace)
    (hOtherwise : Reads (.alternative otherwise) es) :
    ReadsFirst (.ifElse word condition consequence otherwise)
      .call
      (word :: opening :: (cs ++ closing :: (ts ++ es))) := by
  intro d u r z hDepth hElse _
  rcases hBrace with ⟨brace, ts, rfl, hBrace⟩
  simp only [List.length_cons, List.length_append] at hDepth
  rcases hCondition (d := d)
      (r := brace :: (ts ++ (es ++ u :: r))) (z := z)
      (by omega) (.of_kind hClosing (by decide)) with ⟨t, hConditionRun⟩
  rcases hConsequence (d := d)
      (r := es ++ u :: r) (z := z)
      (by simp only [List.length_cons]; omega) with
    ⟨t', hConsequenceRun⟩
  rcases hOtherwise (d := d) (t := t') (u := u)
      (r := r) (z := z) (by omega) hElse with
    ⟨t'', hOtherwiseRun⟩
  refine ⟨t'', ?_⟩
  rw [List.cons_append] at hConsequenceRun
  simp only [firstPart, bind_apply, current_apply, hWord,
    ifExpression, List.cons_append, List.append_assoc,
    expect_apply hOpening, advance_apply, hConditionRun,
    expect_apply hClosing, expect_apply hBrace,
    hConsequenceRun, hOtherwiseRun, pure_apply]

------------------------------------------------------------
-- Names
------------------------------------------------------------

theorem moreParameters_run
    {id : Identifier}
    {ids : List Identifier}
    (h : SpellsNames Eq (id :: ids) ts) :
    ∃ first ts',
      ts = first :: ts' ∧
        first.kind = .ident ∧
        id = { token := first, name := first.literal } ∧
        ∀ {n : Nat} {u : Token} {r : List Token} {z : Token},
          ts.length ≤ n →
          u.kind = .rparen →
          ∃ t,
            moreParameters n ⟨first :: (ts' ++ u :: r), z⟩ =
              .ok ids ⟨t :: u :: r, z⟩ := by
  induction ids generalizing id ts with
  | nil =>
      cases h with
      | @one _ first hName hOwn =>
          subst hOwn
          refine ⟨first, [], rfl, hName, rfl, ?_⟩
          intro n u r z hRounds hClosing
          rw [List.length_singleton] at hRounds
          obtain ⟨n, rfl⟩ : ∃ m, n = m + 1 :=
            ⟨n - 1, by omega⟩
          refine ⟨first, ?_⟩
          simp only [moreParameters, bind_apply,
            List.nil_append, peek_apply, hClosing, reduceCtorEq,
            if_false, pure_apply]
  | cons second ids ih =>
      cases h with
      | more hName hOwn hComma hMore =>
          subst hOwn
          rcases ih hMore with
            ⟨first, ts', rfl, hSecond, rfl, hRun⟩
          refine ⟨_, _, rfl, hName, rfl, ?_⟩
          intro n u r z hRounds hClosing
          simp only [List.length_cons] at hRounds hRun
          obtain ⟨n, rfl⟩ : ∃ m, n = m + 1 :=
            ⟨n - 1, by omega⟩
          rcases hRun (n := n) (r := r) (z := z)
              (by omega) hClosing with ⟨t, hMoreRun⟩
          refine ⟨t, ?_⟩
          simp only [moreParameters, bind_apply,
            List.cons_append, peek_apply, hComma, if_true,
            advance_apply, expect_apply hSecond,
            identifierHere, current_apply, pure_apply,
            hMoreRun]

theorem parameters_run
    {ids : List Identifier}
    (h : SpellsNames Eq ids ts)
    (hClosing : u.kind = .rparen) :
    parameters ⟨t :: (ts ++ u :: r), z⟩ =
      .ok ids ⟨u :: r, z⟩ := by
  cases ids with
  | nil =>
      cases h
      simp only [parameters, bind_apply, List.nil_append,
        peek_apply, hClosing, if_true, advance_apply,
        pure_apply]
  | cons id ids =>
      rcases moreParameters_run h with
        ⟨first, ts', rfl, hName, rfl, hRun⟩
      rcases hRun
          (n := (first :: (ts' ++ u :: r)).length + 1)
          (r := r) (z := z)
          (by simp only [List.length_cons, List.length_append]
              omega)
          hClosing with ⟨t', hMore⟩
      simp only [parameters, bind_apply, List.cons_append,
        peek_apply, hName, reduceCtorEq, if_false,
        expect_apply hName, identifierHere, current_apply,
        pure_apply, rounds_apply, hMore,
        expect_apply hClosing]

theorem readsFirst_function
    {word opening closing : Token}
    {params : List Identifier}
    {body : Node}
    {ns : List Token}
    (hWord : word.kind = .fnWord)
    (hOpening : opening.kind = .lparen)
    (hParams : SpellsNames Eq params ns)
    (hClosing : closing.kind = .rparen)
    (hBody : Reads (.block body) ts)
    (hBrace : ∃ brace ts', ts = brace :: ts' ∧
      brace.kind = .lbrace) :
    ReadsFirst (.function word params body) .call
      (word :: opening :: (ns ++ closing :: ts)) := by
  intro d u r z hDepth _ _
  rcases hBrace with ⟨brace, ts, rfl, hBrace⟩
  simp only [List.length_cons, List.length_append] at hDepth
  rcases hBody (d := d) (r := u :: r) (z := z)
      (by simp only [List.length_cons]; omega) with
    ⟨t, hBodyRun⟩
  refine ⟨t, ?_⟩
  rw [List.cons_append] at hBodyRun
  simp only [firstPart, bind_apply, current_apply, hWord,
    functionLiteral, List.cons_append, List.append_assoc,
    expect_apply hOpening, parameters_run hParams hClosing,
    expect_apply hBrace, hBodyRun, pure_apply]

------------------------------------------------------------
-- Lists of Expressions
------------------------------------------------------------

/- A closing token of a list of expressions ends the last of
   them. -/
theorem separates_of_closing
    (hClosing : u.kind = .rparen ∨ u.kind = .rbracket) :
    Separates u := by
  rcases hClosing with hKind | hKind
  · exact .of_kind hKind (by decide)
  · exact .of_kind hKind (by decide)

/- No expression starts with a closing token. -/
theorem ne_closing_of_startsExpression
    {first : Token}
    (hStart : first.kind.StartsExpression)
    (hClosing : u.kind = .rparen ∨ u.kind = .rbracket) :
    first.kind ≠ u.kind := by
  intro hEq
  rw [hEq] at hStart
  rcases hClosing with hKind | hKind <;>
    rw [hKind] at hStart <;>
    exact absurd hStart (by decide)

theorem reads_noFurtherItems :
    Reads (.furtherItems []) [] := by
  intro d n t u r z _ hRounds hClosing
  obtain ⟨n, rfl⟩ : ∃ m, n = m + 1 := ⟨n - 1, by
    simp only [List.length_nil] at hRounds
    omega⟩
  have hComma : u.kind ≠ .comma := by
    rcases hClosing with hKind | hKind <;>
      rw [hKind] <;> decide
  refine ⟨t, ?_⟩
  simp only [moreExpressions, bind_apply, List.nil_append,
    peek_apply, hComma, if_false, pure_apply]

/- The tokens after an item: the next comma or the closing
   token. -/
theorem furtherItems_separate
    {own : Token → Token → Prop}
    {es : List Node}
    (h : Spells own (.furtherItems es) us)
    (hClosing : u.kind = .rparen ∨ u.kind = .rbracket) :
    ∃ next more,
      us ++ u :: r = next :: more ∧ Separates next := by
  cases h with
  | noFurtherItems =>
      exact ⟨u, r, rfl, separates_of_closing hClosing⟩
  | furtherItems hComma =>
      exact ⟨_, _, rfl, .of_kind hComma (by decide)⟩

theorem reads_furtherItems
    {own : Token → Token → Prop}
    {comma : Token}
    {e : Node}
    {es : List Node}
    (hComma : comma.kind = .comma)
    (hFirst : ReadsLowest e ts)
    (hSpells : Spells own (.furtherItems es) us)
    (hMore : Reads (.furtherItems es) us) :
    Reads (.furtherItems (e :: es)) (comma :: (ts ++ us)) := by
  intro d n t u r z hDepth hRounds hClosing
  simp only [List.length_cons, List.length_append]
    at hDepth hRounds
  obtain ⟨n, rfl⟩ : ∃ m, n = m + 1 := ⟨n - 1, by omega⟩
  rcases furtherItems_separate (r := r) hSpells hClosing
    with ⟨next, more, hNext, hSeparates⟩
  rcases hFirst (d := d) (r := more) (z := z)
      (by omega) hSeparates with ⟨t₁, hFirstRun⟩
  rcases hMore (d := d) (n := n) (t := t₁)
      (r := r) (z := z) (by omega) (by omega)
      hClosing with ⟨t₂, hMoreRun⟩
  refine ⟨t₂, ?_⟩
  rw [← hNext] at hFirstRun
  simp only [moreExpressions, bind_apply, List.cons_append,
    List.append_assoc, peek_apply, hComma, if_true,
    advance_apply, hFirstRun, hMoreRun, pure_apply]

theorem reads_noItems :
    Reads (.items []) [] := by
  intro d t u r z _ _
  simp only [expressionList, bind_apply, List.nil_append,
    peek_apply, if_true, advance_apply, pure_apply]

theorem reads_items
    {own : Token → Token → Prop}
    {e : Node}
    {es : List Node}
    {b : Precedence}
    (hFirstSpells : Spells own (.expression e b) ts)
    (hFirst : ReadsLowest e ts)
    (hSpells : Spells own (.furtherItems es) us)
    (hMore : Reads (.furtherItems es) us) :
    Reads (.items (e :: es)) (ts ++ us) := by
  intro d t u r z hDepth hClosing
  rw [List.length_append] at hDepth
  rcases furtherItems_separate (r := r) hSpells hClosing
    with ⟨next, more, hNext, hSeparates⟩
  rcases hFirst (d := d) (r := more) (z := z)
      (by omega) hSeparates with ⟨t₁, hFirstRun⟩
  rcases hMore (d := d)
      (n := (t₁ :: (us ++ u :: r)).length + 1) (t := t₁)
      (r := r) (z := z) (by omega)
      (by simp only [List.length_cons, List.length_append]
          omega)
      hClosing with ⟨t₂, hMoreRun⟩
  rcases hFirstSpells.expression_opens with
    ⟨first, ts, rfl, hStart⟩
  have hNotClosing :=
    ne_closing_of_startsExpression hStart hClosing
  rw [← hNext, List.cons_append] at hFirstRun
  simp only [expressionList, bind_apply, List.cons_append,
    List.append_assoc, peek_apply, hNotClosing, if_false,
    advance_apply, hFirstRun, rounds_apply, hMoreRun,
    expect_apply rfl, pure_apply]

/- An array is what stands between its brackets. -/
theorem firstPart_array
    {opening closing : Token}
    {elements : List Node}
    (hOpening : opening.kind = .lbracket)
    (hClosing : closing.kind = .rbracket)
    (hElements :
      expressionList (expression d) closing.kind
          ⟨opening :: (ts ++ closing :: r), z⟩ =
        .ok elements ⟨closing :: r, z⟩) :
    firstPart (expression d)
        ⟨opening :: (ts ++ [closing]) ++ r, z⟩ =
      .ok (.array opening elements) ⟨closing :: r, z⟩ := by
  rw [hClosing] at hElements
  simp only [firstPart, bind_apply, current_apply, hOpening,
    arrayLiteral, List.cons_append, List.append_assoc,
    List.nil_append, hElements, pure_apply]

theorem readsFirst_array
    {opening closing : Token}
    {elements : List Node}
    (hOpening : opening.kind = .lbracket)
    (hElements : Reads (.items elements) ts)
    (hClosing : closing.kind = .rbracket) :
    ReadsFirst (.array opening elements) .call
      (opening :: (ts ++ [closing])) := by
  intro d u r z hDepth _ _
  simp only [List.length_cons, List.length_append] at hDepth
  exact ⟨closing,
    firstPart_array hOpening hClosing
      (hElements (by omega) (.inr hClosing))⟩

------------------------------------------------------------
-- Hashes
------------------------------------------------------------

theorem atPairsEnd_apply
    {t u : Token} :
    atPairsEnd ⟨t :: u :: r, z⟩ =
      .ok (u.kind == .rbrace || u.kind == .eof)
        ⟨t :: u :: r, z⟩ := by
  rw [atPairsEnd_eq_ok]
  exact ⟨rfl, rfl⟩

theorem reads_noPairs :
    Reads (.pairs []) [] := by
  intro d n t u r z _ hRounds hClosing
  obtain ⟨n, rfl⟩ : ∃ m, n = m + 1 := ⟨n - 1, by
    simp only [List.length_nil] at hRounds
    omega⟩
  refine ⟨t, ?_⟩
  simp only [hashPairs, bind_apply, List.nil_append,
    atPairsEnd_apply, hClosing, beq_self_eq_true,
    Bool.true_or, if_true, pure_apply]

/- The first pair, up to what follows its value. -/
theorem hashPairs_first
    {colon next : Token}
    {key value : Node}
    {ks vs : List Token}
    (hStart :
      ∃ first rest,
        ks = first :: rest ∧ first.kind.StartsExpression)
    (hKey : RunsAt d key ks)
    (hColon : colon.kind = .colon)
    (hValue : RunsAt d value vs)
    (hNext : Separates next) :
    ∃ t',
      hashPairs (expression d) (n + 1)
          ⟨t :: (ks ++ colon :: (vs ++ next :: r)), z⟩ =
        (do
          if ← atPairsEnd then
            pure ()
          else
            expect .comma
          let others ← hashPairs (expression d) n
          return (key, value) :: others)
          ⟨t' :: next :: r, z⟩ := by
  rcases hKey (r := vs ++ next :: r) (z := z)
      (.of_kind hColon (by decide)) with ⟨t₁, hKeyRun⟩
  rcases hValue (r := r) (z := z) hNext with
    ⟨t₂, hValueRun⟩
  rcases hStart with ⟨first, ks, rfl, hStart⟩
  have hNotEnd :
      (first.kind == .rbrace || first.kind == .eof) =
        false := by
    rw [Bool.or_eq_false_iff, beq_eq_false_iff_ne,
      beq_eq_false_iff_ne]
    constructor <;> intro hEq <;> rw [hEq] at hStart <;>
      exact absurd hStart (by decide)
  refine ⟨t₂, ?_⟩
  rw [List.cons_append] at hKeyRun ⊢
  simp only [hashPairs, bind_apply, atPairsEnd_apply, hNotEnd,
    Bool.false_eq_true, if_false, advance_apply, hKeyRun,
    expect_apply hColon, hValueRun]

/- The last pair, up to the closing brace. -/
theorem hashPairs_last
    {colon : Token}
    {key value : Node}
    {ks vs : List Token}
    (hStart :
      ∃ first rest,
        ks = first :: rest ∧ first.kind.StartsExpression)
    (hKey : RunsAt d key ks)
    (hColon : colon.kind = .colon)
    (hValue : RunsAt d value vs)
    (hClosing : u.kind = .rbrace) :
    ∃ t',
      hashPairs (expression d) (n + 2)
          ⟨t :: (ks ++ colon :: (vs ++ u :: r)), z⟩ =
        .ok [(key, value)] ⟨t' :: u :: r, z⟩ := by
  rcases hashPairs_first (n := n + 1) (t := t) (r := r)
      (z := z) hStart hKey hColon hValue
      (.of_kind hClosing (by decide)) with ⟨t₁, hPair⟩
  rcases reads_noPairs (d := d) (n := n + 1) (t := t₁)
      (r := r) (z := z) (Nat.zero_le _) (Nat.zero_lt_succ _)
      hClosing with ⟨t₂, hEnd⟩
  refine ⟨t₂, ?_⟩
  rw [List.nil_append] at hEnd
  rw [hPair]
  simp only [bind_apply, atPairsEnd_apply, hClosing,
    beq_self_eq_true, Bool.true_or, if_true, pure_apply, hEnd]

/- A pair before a comma, and then others. -/
theorem hashPairs_more
    {colon comma : Token}
    {key value : Node}
    {ps : List (Node × Node)}
    {ks vs : List Token}
    (hStart :
      ∃ first rest,
        ks = first :: rest ∧ first.kind.StartsExpression)
    (hKey : RunsAt d key ks)
    (hColon : colon.kind = .colon)
    (hValue : RunsAt d value vs)
    (hComma : comma.kind = .comma)
    (hMore :
      ∃ t',
        hashPairs (expression d) n
            ⟨comma :: (us ++ u :: r), z⟩ =
          .ok ps ⟨t' :: u :: r, z⟩) :
    ∃ t',
      hashPairs (expression d) (n + 1)
          ⟨t :: (ks ++ colon ::
            (vs ++ comma :: (us ++ u :: r))), z⟩ =
        .ok ((key, value) :: ps) ⟨t' :: u :: r, z⟩ := by
  rcases hashPairs_first (n := n) (t := t)
      (r := us ++ u :: r) (z := z) hStart hKey hColon hValue
      (.of_kind hComma (by decide)) with ⟨t₁, hPair⟩
  rcases hMore with ⟨t₂, hMoreRun⟩
  refine ⟨t₂, ?_⟩
  rw [hPair]
  simp only [bind_apply, atPairsEnd_apply, hComma,
    reduceCtorEq, beq_iff_eq, Bool.or_eq_true, or_self,
    if_false, expect_apply hComma, hMoreRun, pure_apply]

theorem reads_lastPair
    {own : Token → Token → Prop}
    {colon : Token}
    {key value : Node}
    {a : Precedence}
    {ks vs : List Token}
    (hKeySpells : Spells own (.expression key a) ks)
    (hKey : ReadsLowest key ks)
    (hColon : colon.kind = .colon)
    (hValue : ReadsLowest value vs) :
    Reads (.pairs [(key, value)]) (ks ++ colon :: vs) := by
  intro d n t u r z hDepth hRounds hClosing
  have hSome : ks ≠ [] := by
    rcases hKeySpells.expression_opens with ⟨t, us, rfl, -⟩
    simp
  have hPositive : 0 < ks.length := List.length_pos_iff.mpr hSome
  simp only [List.length_cons, List.length_append]
    at hDepth hRounds
  obtain ⟨n, rfl⟩ : ∃ m, n = m + 2 := ⟨n - 2, by omega⟩
  rw [List.append_assoc, List.cons_append]
  exact hashPairs_last hKeySpells.expression_opens
    (hKey.runsAt (by omega)) hColon (hValue.runsAt (by omega))
    hClosing

theorem reads_pairThen
    {own : Token → Token → Prop}
    {colon comma : Token}
    {key value : Node}
    {ps : List (Node × Node)}
    {a : Precedence}
    {ks vs : List Token}
    (hKeySpells : Spells own (.expression key a) ks)
    (hKey : ReadsLowest key ks)
    (hColon : colon.kind = .colon)
    (hValue : ReadsLowest value vs)
    (hComma : comma.kind = .comma)
    (hMore : Reads (.pairs ps) us) :
    Reads (.pairs ((key, value) :: ps))
      (ks ++ colon :: (vs ++ comma :: us)) := by
  intro d n t u r z hDepth hRounds hClosing
  simp only [List.length_cons, List.length_append]
    at hDepth hRounds
  obtain ⟨n, rfl⟩ : ∃ m, n = m + 1 := ⟨n - 1, by omega⟩
  simp only [List.append_assoc, List.cons_append]
  exact hashPairs_more hKeySpells.expression_opens
    (hKey.runsAt (by omega)) hColon (hValue.runsAt (by omega))
    hComma (hMore (by omega) (by omega) hClosing)

/- A hash is what stands between its braces. -/
theorem firstPart_hash
    {opening closing : Token}
    {pairs : List (Node × Node)}
    (hOpening : opening.kind = .lbrace)
    (hClosing : closing.kind = .rbrace)
    (hPairs :
      ∀ {n : Nat}, ts.length < n →
        ∃ t',
          hashPairs (expression d) n
              ⟨opening :: (ts ++ closing :: r), z⟩ =
            .ok pairs ⟨t' :: closing :: r, z⟩) :
    firstPart (expression d)
        ⟨opening :: (ts ++ [closing]) ++ r, z⟩ =
      .ok (.hash opening pairs) ⟨closing :: r, z⟩ := by
  have hRounds :
      ts.length <
        (opening :: (ts ++ closing :: r)).length + 1 := by
    simp only [List.length_cons, List.length_append]
    omega
  rcases hPairs hRounds with ⟨t, hRun⟩
  simp only [firstPart, bind_apply, current_apply, hOpening,
    hashLiteral, List.cons_append, List.append_assoc,
    List.nil_append, rounds_apply, hRun,
    expect_apply hClosing, pure_apply]

theorem readsFirst_hash
    {opening closing : Token}
    {pairs : List (Node × Node)}
    (hOpening : opening.kind = .lbrace)
    (hPairs : Reads (.pairs pairs) ts)
    (hClosing : closing.kind = .rbrace) :
    ReadsFirst (.hash opening pairs) .call
      (opening :: (ts ++ [closing])) := by
  intro d u r z hDepth _ _
  simp only [List.length_cons, List.length_append] at hDepth
  exact ⟨closing,
    firstPart_hash hOpening hClosing fun hRounds =>
      hPairs (by omega) hRounds hClosing⟩

------------------------------------------------------------
-- Blocks
------------------------------------------------------------

theorem reads_block
    {opening closing : Token}
    {ss : List Node}
    (hStatements : Reads (.statements ss) ts)
    (hClosing : closing.kind = .rbrace) :
    Reads (.block (.block opening ss))
      (opening :: (ts ++ [closing])) := by
  intro d r z hDepth
  simp only [List.length_cons, List.length_append] at hDepth
  have hRun :=
    (hStatements (d := d)
      (n := (ts ++ closing :: r).length + 1) (u := closing)
      (r := r) (z := z) (by omega)
      (by simp only [List.length_cons, List.length_append]
          omega)).1 hClosing
  refine ⟨closing, ?_⟩
  simp only [block, bind_apply, List.cons_append,
    current_apply, advance_apply, List.append_assoc,
    List.nil_append, rounds_apply, hRun, pure_apply]

/- A block starts with its brace. -/
theorem block_opens
    {own : Token → Token → Prop}
    {b : Node}
    (h : Spells own (.block b) ts) :
    ∃ brace ts', ts = brace :: ts' ∧ brace.kind = .lbrace := by
  cases h with
  | block hOpening => exact ⟨_, _, rfl, hOpening⟩

theorem reads_noAlternative :
    Reads (.alternative none) [] := by
  intro d t u r z _ hElse
  refine ⟨t, ?_⟩
  simp only [alternative, bind_apply, List.nil_append,
    peek_apply, hElse, if_false, pure_apply]

theorem reads_alternative
    {word : Token}
    {branch : Node}
    (hWord : word.kind = .elseWord)
    (hBranch : Reads (.block branch) ts)
    (hBrace : ∃ brace ts', ts = brace :: ts' ∧
      brace.kind = .lbrace) :
    Reads (.alternative (some branch)) (word :: ts) := by
  intro d t u r z hDepth _
  rcases hBrace with ⟨brace, ts, rfl, hBrace⟩
  rcases hBranch (d := d) (r := u :: r) (z := z)
      (Nat.le_of_succ_le hDepth) with ⟨t', hRun⟩
  refine ⟨t', ?_⟩
  rw [List.cons_append] at hRun
  simp only [alternative, bind_apply, List.cons_append,
    peek_apply, hWord, if_true, advance_apply,
    expect_apply hBrace, hRun, pure_apply]

------------------------------------------------------------
-- Operators, Calls, and Indexings
------------------------------------------------------------

/-
  One round of the loop: where the next token binds tightly
  enough and what it makes of `left` is known, the loop goes on
  with that.
-/
theorem continuations_step
    {asked : Precedence}
    {left extended : Node}
    {next t' : Token}
    {more : List Token}
    (hTight : asked.rank < next.kind.precedence.rank)
    (hContinuation :
      continuation (expression d) left
          ⟨next :: more, z⟩ =
        .ok extended ⟨t' :: r, z⟩) :
    continuations (expression d) asked (n + 1) left
        ⟨t :: next :: more, z⟩ =
      continuations (expression d) asked n extended
        ⟨t' :: r, z⟩ := by
  simp only [continuations, bind_apply, peek_apply, hTight,
    if_true, advance_apply, hContinuation]

theorem continuation_infixOp
    {left : Node}
    (hKind : t.kind.IsInfix) :
    continuation (expression d) left ⟨t :: ts, z⟩ =
      infixExpression (expression d) left
        ⟨t :: ts, z⟩ := by
  simp only [TokenKind.IsInfix, List.mem_cons,
    List.not_mem_nil, or_false] at hKind
  rcases hKind with
    hKind | hKind | hKind | hKind | hKind | hKind | hKind |
      hKind <;>
    simp only [continuation, bind_apply, current_apply, hKind]

theorem reads_infixOp
    {own : Token → Token → Prop}
    {left right : Node}
    {a b : Precedence}
    {ls rs : List Token}
    (hKind : t.kind.IsInfix)
    (hLeft : Reads (.expression left a) ls)
    (hLeftStrength : t.kind.precedence.rank ≤ a.rank)
    (hRightSpells : Spells own (.expression right b) rs)
    (hRight : Reads (.expression right b) rs)
    (hRightStrength : t.kind.precedence.rank < b.rank) :
    Reads
      (.expression (.infixOp t left t.literal right)
        t.kind.precedence)
      (ls ++ t :: rs) := by
  intro d asked u r z hDepth hAdmits hElse hLoose
  simp only [List.length_cons, List.length_append] at hDepth
  have hInfix := hKind.strength
  have hTight : asked.rank < t.kind.precedence.rank := by
    rcases hAdmits with hLess | ⟨-, hUnary⟩
    · exact hLess
    · rw [hUnary] at hInfix
      exact absurd hInfix.2 (by decide)
  have hRightTokens : rs ≠ [] := by
    rcases hRightSpells.expression_opens with ⟨t, us, rfl, -⟩
    simp
  rcases hLeft (d := d) (u := t)
      (r := rs ++ u :: r) (z := z) (by omega)
      (.inl (Nat.lt_of_lt_of_le hTight hLeftStrength))
      hKind.ne_else hLeftStrength with
    ⟨t₁, n, hRounds, hLeftRun⟩
  rcases hRight.expression_run (d := d) (r := r)
      (z := z) hRightTokens (by omega) (.inl hRightStrength)
      hElse hLoose with ⟨t₂, hRightRun⟩
  simp only [List.length_cons, List.length_append] at hRounds
  obtain ⟨n, rfl⟩ : ∃ m, n = m + 1 := ⟨n - 1, by omega⟩
  have hContinuation :
      continuation (expression d) left
          ⟨t :: (rs ++ u :: r), z⟩ =
        .ok (.infixOp t left t.literal right)
          ⟨t₂ :: u :: r, z⟩ := by
    rw [continuation_infixOp hKind]
    simp only [infixExpression, bind_apply, current_apply,
      advance_apply, hRightRun, pure_apply]
  refine ⟨t₂, n, by omega, ?_⟩
  rw [List.append_assoc, List.cons_append, hLeftRun]
  exact continuations_step hTight hContinuation

theorem reads_call
    {opening closing : Token}
    {callee : Node}
    {args : List Node}
    {fs : List Token}
    (hCallee : Reads (.expression callee .call) fs)
    (hOpening : opening.kind = .lparen)
    (hArgs : Reads (.items args) ts)
    (hClosing : closing.kind = .rparen) :
    Reads (.expression (.call opening callee args) .call)
      (fs ++ opening :: (ts ++ [closing])) := by
  intro d asked u r z hDepth hAdmits hElse hLoose
  simp only [List.length_cons, List.length_append] at hDepth
  have hTight :
      asked.rank < opening.kind.precedence.rank := by
    rw [hOpening]
    exact hAdmits.lt_call
  rcases hCallee (d := d)
      (u := opening) (r := ts ++ closing :: u :: r)
      (z := z) (by omega) hAdmits (by rw [hOpening]; decide)
      (by rw [hOpening]; decide) with
    ⟨t₁, n, hRounds, hCalleeRun⟩
  simp only [List.length_cons, List.length_append] at hRounds
  obtain ⟨n, rfl⟩ : ∃ m, n = m + 1 := ⟨n - 1, by omega⟩
  have hArgsRun :=
    hArgs (d := d) (t := opening) (u := closing)
      (r := u :: r) (z := z) (by omega) (.inl hClosing)
  rw [hClosing] at hArgsRun
  have hContinuation :
      continuation (expression d) callee
          ⟨opening :: (ts ++ closing :: u :: r), z⟩ =
        .ok (.call opening callee args)
          ⟨closing :: u :: r, z⟩ := by
    simp only [continuation, bind_apply, current_apply,
      hOpening, callExpression, hArgsRun, pure_apply]
  refine ⟨closing, n, by omega, ?_⟩
  simp only [List.append_assoc, List.cons_append,
    List.nil_append]
  rw [hCalleeRun]
  exact continuations_step hTight hContinuation

theorem reads_index
    {opening closing : Token}
    {left subscript : Node}
    {ls : List Token}
    (hLeft : Reads (.expression left .call) ls)
    (hOpening : opening.kind = .lbracket)
    (hSubscript : ReadsLowest subscript ts)
    (hClosing : closing.kind = .rbracket) :
    Reads (.expression (.index opening left subscript) .call)
      (ls ++ opening :: (ts ++ [closing])) := by
  intro d asked u r z hDepth hAdmits hElse hLoose
  simp only [List.length_cons, List.length_append] at hDepth
  have hTight :
      asked.rank < opening.kind.precedence.rank := by
    rw [hOpening]
    exact hAdmits.lt_call
  rcases hLeft (d := d)
      (u := opening) (r := ts ++ closing :: u :: r)
      (z := z) (by omega) hAdmits (by rw [hOpening]; decide)
      (by rw [hOpening]; decide) with
    ⟨t₁, n, hRounds, hLeftRun⟩
  simp only [List.length_cons, List.length_append] at hRounds
  obtain ⟨n, rfl⟩ : ∃ m, n = m + 1 := ⟨n - 1, by omega⟩
  rcases hSubscript (d := d) (r := u :: r)
      (z := z) (by omega) (.of_kind hClosing (by decide)) with
    ⟨t₂, hSubscriptRun⟩
  have hContinuation :
      continuation (expression d) left
          ⟨opening :: (ts ++ closing :: u :: r), z⟩ =
        .ok (.index opening left subscript)
          ⟨closing :: u :: r, z⟩ := by
    simp only [continuation, bind_apply, current_apply,
      hOpening, indexExpression, advance_apply,
      hSubscriptRun, expect_apply hClosing, pure_apply]
  refine ⟨closing, n, by omega, ?_⟩
  simp only [List.append_assoc, List.cons_append,
    List.nil_append]
  rw [hLeftRun]
  exact continuations_step hTight hContinuation

------------------------------------------------------------
-- Statements
------------------------------------------------------------

/- A statement that starts like an expression is one. -/
theorem statement_of_startsExpression
    {expr : Precedence → Parse Node}
    (hStart : t.kind.StartsExpression) :
    statement expr ⟨t :: r, z⟩ =
      expressionStatement expr ⟨t :: r, z⟩ := by
  have hWords :
      t.kind ≠ .letWord ∧ t.kind ≠ .returnWord := by
    refine ⟨?_, ?_⟩ <;> intro hEq <;>
      rw [hEq] at hStart <;> exact absurd hStart (by decide)
  simp only [statement, bind_apply, current_apply]
  generalize t.kind = kind at hWords
  split
  · exact absurd rfl hWords.1
  · exact absurd rfl hWords.2
  · rfl

/-
  A statement that ends on an expression is over where a token
  separates it from the next one, and takes a semicolon along.
-/
theorem reads_statement
    {v : Node}
    (h :
      ∀ {d : Nat} {u : Token} {r : List Token}
        {z : Token},
        ts.length ≤ d →
        Separates u →
        ∃ t,
          statement (expression d) ⟨ts ++ u :: r, z⟩ =
            (do
              acceptOptional .semicolon
              return v)
              ⟨t :: u :: r, z⟩) :
    Reads (.statement v) ts := by
  intro d u r z hDepth
  constructor
  · intro hSemicolon
    rcases h (r := r) (z := z) hDepth
        (.of_kind hSemicolon (by decide)) with ⟨t, hRun⟩
    rw [hRun, bind_apply, acceptOptional_apply hSemicolon]
    rfl
  · intro hSemicolon hSeparates _
    rcases h (r := r) (z := z) hDepth hSeparates with
      ⟨t, hRun⟩
    refine ⟨t, ?_⟩
    rw [hRun, bind_apply, acceptOptional_apply_of_ne hSemicolon]
    rfl

theorem reads_letStmt
    {word name assign : Token}
    {value : Node}
    (hWord : word.kind = .letWord)
    (hName : name.kind = .ident)
    (hAssign : assign.kind = .assign)
    (hValue : ReadsLowest value ts) :
    Reads
      (.statement
        (.letStmt word { token := name, name := name.literal }
          value))
      (word :: name :: assign :: ts) := by
  refine reads_statement fun {d u r z} hDepth hSep => ?_
  simp only [List.length_cons] at hDepth
  rcases hValue (d := d) (r := r) (z := z)
      (by omega) hSep with ⟨t, hRun⟩
  refine ⟨t, ?_⟩
  simp only [statement, bind_apply, List.cons_append,
    current_apply, hWord, letStatement, expect_apply hName,
    identifierHere, pure_apply, expect_apply hAssign,
    advance_apply, hRun]

theorem reads_bareReturn
    {word : Token}
    (hWord : word.kind = .returnWord) :
    Reads (.statement (.returnStmt word none)) [word] := by
  intro d u r z _
  constructor
  · intro hSemicolon
    simp only [statement, bind_apply, List.cons_append,
      List.nil_append, current_apply, hWord, returnStatement,
      peek_apply, hSemicolon, if_true, advance_apply,
      pure_apply]
  · intro hSemicolon _ hOver
    have hEnd :
        u.kind = .rbrace ∨ u.kind = .eof :=
      hOver ⟨word, rfl⟩
    refine ⟨word, ?_⟩
    rcases hEnd with hKind | hKind <;>
      simp only [statement, bind_apply, List.cons_append,
        List.nil_append, current_apply, hWord,
        returnStatement, peek_apply, hKind, reduceCtorEq,
        if_false, if_true, pure_apply]

theorem reads_returnStmt
    {own : Token → Token → Prop}
    {word : Token}
    {value : Node}
    {b : Precedence}
    (hWord : word.kind = .returnWord)
    (hSpells : Spells own (.expression value b) ts)
    (hValue : ReadsLowest value ts) :
    Reads (.statement (.returnStmt word (some value)))
      (word :: ts) := by
  refine reads_statement fun {d u r z} hDepth hSep => ?_
  rcases hValue (d := d) (r := r) (z := z)
      (Nat.le_of_succ_le hDepth) hSep with ⟨t, hRun⟩
  rcases hSpells.expression_opens with
    ⟨first, ts, rfl, hStart⟩
  have hNotEnd :
      first.kind ≠ .semicolon ∧ first.kind ≠ .rbrace ∧
        first.kind ≠ .eof := by
    refine ⟨?_, ?_, ?_⟩ <;> intro hEq <;>
      rw [hEq] at hStart <;> exact absurd hStart (by decide)
  refine ⟨t, ?_⟩
  rw [List.cons_append] at hRun
  simp only [statement, bind_apply, List.cons_append,
    current_apply, hWord, returnStatement, peek_apply,
    hNotEnd, if_false, advance_apply, hRun, pure_apply]

theorem reads_exprStmt
    {own : Token → Token → Prop}
    {first : Token}
    {e : Node}
    {b : Precedence}
    (hSpells : Spells own (.expression e b) (first :: ts))
    (hExpression : ReadsLowest e (first :: ts)) :
    Reads (.statement (.exprStmt first e)) (first :: ts) := by
  refine reads_statement fun {d u r z} hDepth hSep => ?_
  rcases hExpression (d := d) (r := r) (z := z)
      hDepth hSep with ⟨t, hRun⟩
  refine ⟨t, ?_⟩
  have hStart : first.kind.StartsExpression := by
    rcases hSpells.expression_opens with
      ⟨t, us, hTokens, hStart⟩
    cases hTokens
    exact hStart
  rw [List.cons_append] at hRun ⊢
  rw [statement_of_startsExpression hStart]
  simp only [expressionStatement, bind_apply, current_apply,
    hRun, pure_apply]

------------------------------------------------------------
-- Lists of Statements
------------------------------------------------------------

theorem reads_noStatements :
    Reads (.statements []) [] := by
  intro d n u r z _ hRounds
  obtain ⟨n, rfl⟩ : ∃ m, n = m + 1 := ⟨n - 1, by
    simp only [List.length_nil] at hRounds
    omega⟩
  constructor
  · intro hBrace
    simp only [blockStatements, bind_apply, List.nil_append,
      current_apply, hBrace, if_true, pure_apply]
  · intro hEof
    simp only [programStatements, bind_apply, List.nil_append,
      current_apply, hEof, if_true, pure_apply]

/-
  One round of either loop over statements: after the first
  statement, whose last token is passed, come the others.
-/
theorem reads_statements_cons
    {own : Token → Token → Prop}
    {s : Node}
    {ss : List Node}
    {first : List Token}
    (last : List Token)
    (hSpells : Spells own (.statement s) first)
    (hFirst :
      ∀ {d : Nat} {u : Token} {r : List Token}
        {z : Token},
        first.length ≤ d →
        (u.kind = .rbrace ∨ u.kind = .eof) →
        ∃ t,
          statement (expression d)
              ⟨first ++ (last ++ (us ++ u :: r)), z⟩ =
            .ok s ⟨t :: (us ++ u :: r), z⟩)
    (hMore : Reads (.statements ss) us) :
    Reads (.statements (s :: ss)) (first ++ (last ++ us)) := by
  intro d n u r z hDepth hRounds
  simp only [List.length_append] at hDepth hRounds
  rcases hSpells.statement_opens with
    ⟨head, tail, rfl, hStart⟩
  have hNotEnd :
      head.kind ≠ .rbrace ∧ head.kind ≠ .eof := by
    refine ⟨?_, ?_⟩ <;> intro hEq <;>
      rw [hEq] at hStart <;> exact absurd hStart (by decide)
  simp only [List.length_cons] at hDepth hRounds
  obtain ⟨n, rfl⟩ : ∃ m, n = m + 1 := ⟨n - 1, by omega⟩
  have hMoreRun :=
    hMore (d := d) (n := n) (u := u) (r := r)
      (z := z) (by omega) (by omega)
  constructor
  · intro hBrace
    rcases hFirst (d := d) (r := r) (z := z)
        (by simp only [List.length_cons]; omega)
        (.inl hBrace) with ⟨t, hRun⟩
    rw [List.cons_append] at hRun
    simp only [blockStatements, bind_apply, List.cons_append,
      List.append_assoc, current_apply, hNotEnd, if_false,
      hRun, advance_apply, hMoreRun.1 hBrace, pure_apply]
  · intro hEof
    rcases hFirst (d := d) (r := r) (z := z)
        (by simp only [List.length_cons]; omega)
        (.inr hEof) with ⟨t, hRun⟩
    rw [List.cons_append] at hRun
    simp only [programStatements, bind_apply,
      List.cons_append, List.append_assoc, current_apply,
      hNotEnd, if_false, hRun, advance_apply,
      hMoreRun.2 hEof, pure_apply]

theorem reads_closedStatement
    {own : Token → Token → Prop}
    {s : Node}
    {semicolon : Token}
    {ss : List Node}
    (hSpells : Spells own (.statement s) ts)
    (hFirst : Reads (.statement s) ts)
    (hSemicolon : semicolon.kind = .semicolon)
    (hMore : Reads (.statements ss) us) :
    Reads (.statements (s :: ss)) (ts ++ semicolon :: us) := by
  refine reads_statements_cons [semicolon] hSpells ?_ hMore
  intro d u r z hDepth _
  exact ⟨semicolon, (hFirst hDepth).1 hSemicolon⟩

theorem reads_openStatement
    {own : Token → Token → Prop}
    {s : Node}
    {ss : List Node}
    (hSpells : Spells own (.statement s) ts)
    (hFirst : Reads (.statement s) ts)
    (hEnd : s.EndsBefore us)
    (hMoreSpells : Spells own (.statements ss) us)
    (hMore : Reads (.statements ss) us) :
    Reads (.statements (s :: ss)) (ts ++ us) := by
  refine reads_statements_cons [] hSpells ?_ hMore
  intro d u r z hDepth hClosing
  cases us with
  | nil =>
      have hSeparates : Separates u := by
        rcases hClosing with hKind | hKind
        · exact .of_kind hKind (by decide)
        · exact .of_kind hKind (by decide)
      have hSemicolon : u.kind ≠ .semicolon := by
        rcases hClosing with hKind | hKind <;>
          rw [hKind] <;> decide
      exact (hFirst hDepth).2 hSemicolon hSeparates
        fun _ => hClosing
  | cons next us =>
      have hStart := hMoreSpells.statements_opens next rfl
      have hNot :
          next.kind ≠ .elseWord ∧ next.kind ≠ .semicolon := by
        refine ⟨?_, ?_⟩ <;> intro hEq <;>
          rw [hEq] at hStart <;>
          exact absurd hStart (by decide)
      exact (hFirst hDepth).2 hNot.2
        ⟨hNot.1, hEnd.2 next rfl⟩
        fun hBare => absurd (hEnd.1 hBare) (by simp)

theorem reads_program
    {ss : List Node}
    (hStatements : Reads (.statements ss) ts) :
    Reads (.program (.program ss)) ts := by
  intro d u r z hDepth hEof
  have hRun :=
    (hStatements (d := d)
      (n := (ts ++ u :: r).length + 1) (u := u)
      (r := r) (z := z) hDepth
      (by simp only [List.length_cons, List.length_append]
          omega)).2 hEof
  simp only [program, bind_apply, rounds_apply, hRun,
    pure_apply]

------------------------------------------------------------
-- All Phrases
------------------------------------------------------------

/- Each phrase is read from whatever spells it. -/
theorem Reads.of_spells
    {phrase : Phrase}
    (h : Spells Eq phrase ts) :
    Reads phrase ts := by
  induction h with
  | identifier hKind hOwn =>
      subst hOwn
      exact ReadsFirst.reads (readsFirst_identifier hKind)
  | integer hKind hDigits hOwn =>
      subst hOwn
      exact ReadsFirst.reads (readsFirst_integer hKind hDigits)
  | string hKind hOwn =>
      subst hOwn
      exact ReadsFirst.reads (readsFirst_string hKind)
  | boolTrue hKind hOwn =>
      subst hOwn
      exact ReadsFirst.reads (readsFirst_boolTrue hKind)
  | boolFalse hKind hOwn =>
      subst hOwn
      exact ReadsFirst.reads (readsFirst_boolFalse hKind)
  | prefixOp hKind hOwn hRight hStrength ih =>
      subst hOwn
      exact ReadsFirst.reads
        (readsFirst_prefixOp hKind hRight ih hStrength)
  | infixOp hKind hOwn _ hLeftStrength hRight hRightStrength
      ihLeft ihRight =>
      subst hOwn
      exact reads_infixOp hKind ihLeft hLeftStrength hRight
        ihRight hRightStrength
  | group hOpening hInner hClosing ih =>
      exact ReadsFirst.reads
        (readsFirst_group hOpening (ih.lowest hInner) hClosing)
  | ifElse hWord hOwn hOpening hCondition hClosing
      hConsequence _ ihCondition ihConsequence ihOtherwise =>
      subst hOwn
      exact ReadsFirst.reads
        (readsFirst_ifElse hWord hOpening
          (ihCondition.lowest hCondition) hClosing
          ihConsequence (block_opens hConsequence)
          ihOtherwise)
  | function hWord hOwn hOpening hParams hClosing hBody ih =>
      subst hOwn
      exact ReadsFirst.reads
        (readsFirst_function hWord hOpening hParams hClosing ih
          (block_opens hBody))
  | call _ hOpening hOwn _ hClosing ihCallee ihArgs =>
      subst hOwn
      exact reads_call ihCallee hOpening ihArgs hClosing
  | array hOpening hOwn _ hClosing ih =>
      subst hOwn
      exact ReadsFirst.reads
        (readsFirst_array hOpening ih hClosing)
  | index _ hOpening hOwn hSubscript hClosing ihLeft
      ihSubscript =>
      subst hOwn
      exact reads_index ihLeft hOpening
        (ihSubscript.lowest hSubscript) hClosing
  | hash hOpening hOwn _ hClosing ih =>
      subst hOwn
      exact ReadsFirst.reads
        (readsFirst_hash hOpening ih hClosing)
  | noAlternative => exact reads_noAlternative
  | alternative hWord hBranch ih =>
      exact reads_alternative hWord ih (block_opens hBranch)
  | block _ hOwn _ hClosing ih =>
      subst hOwn
      exact reads_block ih hClosing
  | noItems => exact reads_noItems
  | items hFirst hMore ihFirst ihMore =>
      exact reads_items hFirst (ihFirst.lowest hFirst) hMore
        ihMore
  | noFurtherItems => exact reads_noFurtherItems
  | furtherItems hComma hFirst hMore ihFirst ihMore =>
      exact reads_furtherItems hComma (ihFirst.lowest hFirst)
        hMore ihMore
  | noPairs => exact reads_noPairs
  | lastPair hKey hColon hValue ihKey ihValue =>
      exact reads_lastPair hKey (ihKey.lowest hKey) hColon
        (ihValue.lowest hValue)
  | pairThen hKey hColon hValue hComma _ ihKey ihValue
      ihMore =>
      exact reads_pairThen hKey (ihKey.lowest hKey) hColon
        (ihValue.lowest hValue) hComma ihMore
  | letStmt hWord hOwn hName hOwnName hAssign hValue ih =>
      subst hOwn hOwnName
      exact reads_letStmt hWord hName hAssign
        (ih.lowest hValue)
  | bareReturn hWord hOwn =>
      subst hOwn
      exact reads_bareReturn hWord
  | returnStmt hWord hOwn hValue ih =>
      subst hOwn
      exact reads_returnStmt hWord hValue (ih.lowest hValue)
  | exprStmt hExpression hOwn ih =>
      subst hOwn
      exact reads_exprStmt hExpression
        (ih.lowest hExpression)
  | noStatements => exact reads_noStatements
  | closedStatement hFirst hSemicolon _ ihFirst ihMore =>
      exact reads_closedStatement hFirst ihFirst hSemicolon
        ihMore
  | openStatement hFirst hEnd hMore ihFirst ihMore =>
      exact reads_openStatement hFirst ihFirst hEnd hMore
        ihMore
  | program _ ih => exact reads_program ih

end Parse

------------------------------------------------------------
-- Spelled Texts
------------------------------------------------------------

/- A text that spells a program is read as that program, with
   as many levels of nesting as it has tokens. -/
theorem parseWithin_of_spells
    {limit : Nat}
    {source : String}
    {p : Node}
    (h : Spells Eq (.program p) (bodyTokens source))
    (hLimit : (bodyTokens source).length ≤ limit) :
    parseWithin limit source = .ok p := by
  rcases TokenStream.ofText_eq source with
    ⟨stop, hStream, hStop, -⟩
  have hRun :=
    Parse.Reads.of_spells h (r := []) (z := stop) hLimit
      hStop
  rw [parseWithin, hStream, hRun]

end Monkey
