import Monkey.Proofs.Parse.Spelling
import Monkey.Proofs.Parse.Steps
import Monkey.Proofs.Token.EndOfText

/-
  What the parser accepts, it has read token by token.

  A stream reaches another one over the tokens between them.
  Every rule ends on its last token, so the tokens that it has
  read lie between its start and the stream after that token;
  for each rule there is one lemma that these tokens spell its
  result.  Nested expressions are a parameter of the rules, and
  `SoundAt` is what the rules ask of it.

  Main declarations:
    * `TokenStream.Reaches`
    * `Parse.expression_sound`
    * `spells_of_parseWithin`
-/

namespace Monkey

------------------------------------------------------------
-- Tokens Between Streams
------------------------------------------------------------

namespace TokenStream

/- The tokens from one stream up to a later one, none of them
   the end of the text. -/
structure Reaches
    (s : TokenStream)
    (ts : List Token)
    (s' : TokenStream) : Prop where
  pending : s.pending = ts ++ s'.pending
  final : s'.final = s.final
  real : ∀ t ∈ ts, t.kind ≠ .eof

namespace Reaches

variable {s s' s'' : TokenStream}
variable {ts us : List Token}

theorem refl
    (s : TokenStream) :
    s.Reaches [] s :=
  ⟨rfl, rfl, by simp⟩

theorem trans
    (h : s.Reaches ts s')
    (h' : s'.Reaches us s'') :
    s.Reaches (ts ++ us) s'' := by
  refine ⟨?_, h'.final.trans h.final, ?_⟩
  · rw [h.pending, h'.pending, List.append_assoc]
  · intro t hMember
    rcases List.mem_append.mp hMember with hFirst | hSecond
    · exact h.real t hFirst
    · exact h'.real t hSecond

/- The text ends with the same token. -/
theorem ends
    (h : s.Reaches ts s')
    (hEnd : s.final.kind = .eof) :
    s'.final.kind = .eof :=
  h.final ▸ hEnd

/- The current token lies before the rest, unless the text is
   over. -/
theorem advance
    (hEnd : s.final.kind = .eof)
    (hCurrent : s.current.kind ≠ .eof) :
    s.Reaches [s.current] s.advance := by
  refine ⟨?_, rfl, by simpa using hCurrent⟩
  cases hPending : s.pending with
  | nil =>
      simp [current, hPending, hEnd] at hCurrent
  | cons t rest =>
      simp [current, TokenStream.advance, hPending]

/- What is known of the current token is enough to pass it. -/
theorem advance_of_kind
    {kind : TokenKind}
    (hEnd : s.final.kind = .eof)
    (hKind : s.current.kind = kind)
    (hReal : kind ≠ .eof) :
    s.Reaches [s.current] s.advance :=
  advance hEnd (by rw [hKind]; exact hReal)

/- The first token on the way is the current one. -/
theorem head_eq_current
    (h : s.Reaches ts s') :
    ∀ t ∈ ts.head?, t = s.current := by
  intro t hHead
  cases ts with
  | nil => simp at hHead
  | cons u rest =>
      simp only [List.head?_cons, Option.mem_def,
        Option.some.injEq] at hHead
      simp [current, h.pending, hHead]

/- Without tokens in between, the current one is the same. -/
theorem current_eq
    (h : s.Reaches [] s') :
    s'.current = s.current := by
  simp [current, h.pending, h.final]

end Reaches

end TokenStream

/- The lowest strength is the only one of its rank. -/
theorem Precedence.eq_lowest
    {p : Precedence}
    (h : p.rank ≤ 1) :
    p = .lowest := by
  cases p <;> simp_all [Precedence.rank]

/- What binds as tightly as a prefix operator suits whatever
   rules ask for. -/
theorem Precedence.Admits.of_unary_le
    {asked b : Precedence}
    (hAsked : asked.rank ≤ Precedence.unary.rank)
    (hStrength : Precedence.unary.rank ≤ b.rank) :
    asked.Admits b := by
  cases asked <;> cases b <;>
    simp_all [Precedence.Admits, Precedence.rank]

/- What suits a prefix operator binds as tightly as one. -/
theorem Precedence.Admits.unary_le
    {b : Precedence}
    (h : Precedence.unary.Admits b) :
    Precedence.unary.rank ≤ b.rank := by
  rcases h with hLess | ⟨-, rfl⟩
  · exact Nat.le_of_lt hLess
  · exact Nat.le_refl _

/- What suits an infix operator binds more tightly. -/
theorem Precedence.Admits.lt_of_le_product
    {asked b : Precedence}
    (h : asked.Admits b)
    (hAsked : asked.rank ≤ Precedence.product.rank) :
    asked.rank < b.rank := by
  rcases h with hLess | ⟨rfl, -⟩
  · exact hLess
  · exact absurd hAsked (by decide)

/- The end of the text is no operator. -/
theorem TokenKind.IsInfix.ne_eof
    {kind : TokenKind}
    (h : kind.IsInfix) :
    kind ≠ .eof := by
  rintro rfl
  exact absurd h (by decide)

theorem TokenKind.IsSign.ne_eof
    {kind : TokenKind}
    (h : kind.IsSign) :
    kind ≠ .eof := by
  rcases h with rfl | rfl <;> decide

namespace Parse

open TokenStream (Reaches)

variable {s s' : TokenStream}

------------------------------------------------------------
-- Names
------------------------------------------------------------

/- Names after commas, read with the first name current. -/
theorem moreParameters_sound
    {n : Nat}
    {ids : List Identifier}
    (hEnd : s.final.kind = .eof)
    (hKind : s.current.kind = .ident)
    (h : moreParameters n s = .ok ids s') :
    ∃ ts,
      SpellsNames Eq
        ({ token := s.current, name := s.current.literal } ::
          ids) ts ∧
        s.Reaches ts s'.advance := by
  induction n generalizing s ids with
  | zero => simp [moreParameters] at h
  | succ n ih =>
      have hFirst :=
        Reaches.advance_of_kind hEnd hKind (by decide)
      simp only [moreParameters, bind_eq_ok, peek_eq_ok] at h
      rcases h with ⟨_, _, ⟨rfl, rfl⟩, h⟩
      split at h
      · next hComma =>
          simp only [bind_eq_ok, advance_eq_ok, expect_eq_ok,
            identifierHere, current_eq_ok, pure_eq_ok] at h
          rcases h with
            ⟨_, _, rfl, _, _, ⟨hName, rfl⟩, _, _,
              ⟨_, _, ⟨rfl, rfl⟩, rfl, rfl⟩, more, _, hMore,
              rfl, rfl⟩
          rcases ih (s := s.advance.advance) hEnd hName hMore with
            ⟨ts, hNames, hTs⟩
          exact ⟨_, .more hKind rfl hComma hNames,
            hFirst.trans
              ((Reaches.advance_of_kind (s := s.advance) hEnd
                hComma (by decide)).trans hTs)⟩
      · simp only [pure_eq_ok] at h
        rcases h with ⟨rfl, rfl⟩
        exact ⟨_, .one hKind rfl, hFirst⟩

/- Parameters, read with the opening parenthesis current; their
   closing one is then current. -/
theorem parameters_sound
    {ids : List Identifier}
    (hEnd : s.final.kind = .eof)
    (h : parameters s = .ok ids s') :
    ∃ ts,
      SpellsNames Eq ids ts ∧
        s.advance.Reaches ts s' ∧
        s'.current.kind = .rparen := by
  simp only [parameters, bind_eq_ok, peek_eq_ok] at h
  rcases h with ⟨_, _, ⟨rfl, rfl⟩, h⟩
  split at h
  · next hClosing =>
      simp only [bind_eq_ok, advance_eq_ok, pure_eq_ok] at h
      rcases h with ⟨_, _, rfl, rfl, rfl⟩
      exact ⟨[], .none, Reaches.refl _, hClosing⟩
  · simp only [bind_eq_ok, expect_eq_ok, identifierHere,
      current_eq_ok, rounds_eq_ok, pure_eq_ok] at h
    rcases h with
      ⟨_, _, ⟨hName, rfl⟩, _, _, ⟨_, _, ⟨rfl, rfl⟩, rfl, rfl⟩,
        _, _, ⟨rfl, rfl⟩, more, _, hMore, _, _,
        ⟨hClosing, rfl⟩, rfl, rfl⟩
    rcases moreParameters_sound (s := s.advance) hEnd hName
        hMore with ⟨ts, hNames, hTs⟩
    exact ⟨ts, hNames, hTs, hClosing⟩

------------------------------------------------------------
-- Lists of Expressions
------------------------------------------------------------

/-
  What the rules ask of the parser for nested expressions: it
  reads a spelling that suits what was asked for, and stops
  before a token that binds no more tightly.
-/
def SoundAt (expr : Precedence → Parse Node) : Prop :=
  ∀ {asked : Precedence} {s s' : TokenStream} {e : Node},
    s.final.kind = .eof →
      asked.rank ≤ Precedence.unary.rank →
        expr asked s = .ok e s' →
          ∃ ts b,
            Spells Eq (.expression e b) ts ∧
              s.Reaches ts s'.advance ∧
              asked.Admits b ∧
              s'.peek.kind.precedence.rank ≤ asked.rank

variable {expr : Precedence → Parse Node}

/- An expression where nothing in particular is asked for. -/
theorem SoundAt.lowest
    (hExpr : SoundAt expr)
    {e : Node}
    (hEnd : s.final.kind = .eof)
    (h : expr .lowest s = .ok e s') :
    ∃ ts b,
      Spells Eq (.expression e b) ts ∧
        s.Reaches ts s'.advance ∧
        s'.final.kind = .eof ∧
        s'.peek.kind.precedence.rank ≤ 1 := by
  rcases hExpr hEnd (by decide) h with
    ⟨ts, b, hSpells, hTs, -, hPeek⟩
  exact ⟨ts, b, hSpells, hTs, hTs.ends hEnd, hPeek⟩

theorem moreExpressions_sound
    (hExpr : SoundAt expr)
    {n : Nat}
    {es : List Node}
    (hEnd : s.final.kind = .eof)
    (h : moreExpressions expr n s = .ok es s') :
    ∃ ts,
      Spells Eq (.furtherItems es) ts ∧
        s.advance.Reaches ts s'.advance := by
  induction n generalizing s es with
  | zero => simp [moreExpressions] at h
  | succ n ih =>
      simp only [moreExpressions, bind_eq_ok, peek_eq_ok] at h
      rcases h with ⟨_, _, ⟨rfl, rfl⟩, h⟩
      split at h
      · next hComma =>
          simp only [bind_eq_ok, advance_eq_ok, pure_eq_ok]
            at h
          rcases h with
            ⟨_, _, rfl, _, _, rfl, e, s₁, hItem, more, _, hMore,
              rfl, rfl⟩
          rcases hExpr.lowest (s := s.advance.advance) hEnd
              hItem with ⟨ts, b, hSpells, hTs, hEnd₁, -⟩
          rcases ih hEnd₁ hMore with ⟨us, hFurther, hUs⟩
          exact ⟨_, .furtherItems hComma hSpells hFurther,
            (Reaches.advance_of_kind (s := s.advance) hEnd
              hComma (by decide)).trans (hTs.trans hUs)⟩
      · simp only [pure_eq_ok] at h
        rcases h with ⟨rfl, rfl⟩
        exact ⟨[], .noFurtherItems, Reaches.refl _⟩

/- A list, read with its opening token current; its closing one
   is then current. -/
theorem expressionList_sound
    (hExpr : SoundAt expr)
    {close : TokenKind}
    {es : List Node}
    (hEnd : s.final.kind = .eof)
    (h : expressionList expr close s = .ok es s') :
    ∃ ts,
      Spells Eq (.items es) ts ∧
        s.advance.Reaches ts s' ∧
        s'.current.kind = close := by
  simp only [expressionList, bind_eq_ok, peek_eq_ok] at h
  rcases h with ⟨_, _, ⟨rfl, rfl⟩, h⟩
  split at h
  · next hClosing =>
      simp only [bind_eq_ok, advance_eq_ok, pure_eq_ok] at h
      rcases h with ⟨_, _, rfl, rfl, rfl⟩
      exact ⟨[], .noItems, Reaches.refl _, hClosing⟩
  · simp only [bind_eq_ok, advance_eq_ok, rounds_eq_ok,
      expect_eq_ok, pure_eq_ok] at h
    rcases h with
      ⟨_, _, rfl, e, s₁, hFirst, _, _, ⟨rfl, rfl⟩, more, s₂,
        hMore, _, _, ⟨hClosing, rfl⟩, rfl, rfl⟩
    rcases hExpr.lowest (s := s.advance) hEnd hFirst with
      ⟨ts, b, hSpells, hTs, hEnd₁, -⟩
    rcases moreExpressions_sound hExpr hEnd₁ hMore with
      ⟨us, hFurther, hUs⟩
    exact ⟨_, .items hSpells hFurther, hTs.trans hUs,
      hClosing⟩

/- Where the pairs of a hash end, none are read. -/
theorem hashPairs_at_end
    {n : Nat}
    {ps : List (Node × Node)}
    (hAtEnd :
      (s.peek.kind == .rbrace || s.peek.kind == .eof) = true)
    (h : hashPairs expr n s = .ok ps s') :
    ps = [] ∧ s' = s := by
  cases n with
  | zero => simp [hashPairs] at h
  | succ n =>
      simp only [hashPairs, bind_eq_ok, atPairsEnd_eq_ok] at h
      rcases h with ⟨_, _, ⟨rfl, rfl⟩, h⟩
      rw [if_pos hAtEnd, pure_eq_ok] at h
      exact ⟨h.1.symm, h.2.symm⟩

/- The pairs of a hash, read with the token before the first
   one current. -/
theorem hashPairs_sound
    (hExpr : SoundAt expr)
    {n : Nat}
    {ps : List (Node × Node)}
    (hEnd : s.final.kind = .eof)
    (h : hashPairs expr n s = .ok ps s') :
    ∃ ts,
      Spells Eq (.pairs ps) ts ∧
        s.advance.Reaches ts s'.advance := by
  induction n generalizing s ps with
  | zero => simp [hashPairs] at h
  | succ n ih =>
      simp only [hashPairs, bind_eq_ok, atPairsEnd_eq_ok] at h
      rcases h with ⟨_, _, ⟨rfl, rfl⟩, h⟩
      split at h
      · simp only [pure_eq_ok] at h
        rcases h with ⟨rfl, rfl⟩
        exact ⟨[], .noPairs, Reaches.refl _⟩
      · simp only [bind_eq_ok, advance_eq_ok, expect_eq_ok,
          atPairsEnd_eq_ok] at h
        rcases h with
          ⟨_, _, rfl, key, s₁, hKey, _, _, ⟨hColon, rfl⟩, _, _,
            rfl, value, s₂, hValue, _, _, ⟨rfl, rfl⟩, h⟩
        rcases hExpr.lowest (s := s.advance) hEnd hKey with
          ⟨ks, a, hKeySpells, hKs, hEnd₁, -⟩
        rcases hExpr.lowest (s := s₁.advance.advance) hEnd₁
            hValue with ⟨vs, b, hValueSpells, hVs, hEnd₂, -⟩
        have hPair :
            s.advance.Reaches (ks ++ s₁.peek :: vs)
              s₂.advance :=
          hKs.trans
            ((Reaches.advance_of_kind (s := s₁.advance) hEnd₁
              hColon (by decide)).trans hVs)
        split at h
        · next hLast =>
            simp only [bind_eq_ok, pure_eq_ok] at h
            rcases h with ⟨more, _, hMore, rfl, rfl⟩
            rcases hashPairs_at_end hLast hMore with ⟨rfl, rfl⟩
            exact ⟨_, .lastPair hKeySpells hColon hValueSpells,
              hPair⟩
        · simp only [bind_eq_ok, expect_eq_ok, pure_eq_ok]
            at h
          rcases h with
            ⟨_, _, ⟨hComma, rfl⟩, more, _, hMore, rfl, rfl⟩
          rcases ih (s := s₂.advance) hEnd₂ hMore with
            ⟨us, hMoreSpells, hUs⟩
          have hCommaStep :=
            Reaches.advance_of_kind (s := s₂.advance) hEnd₂
              hComma (by decide)
          refine ⟨_, .pairThen hKeySpells hColon hValueSpells
            hComma hMoreSpells, ?_⟩
          have hAll := hPair.trans (hCommaStep.trans hUs)
          rw [List.append_assoc] at hAll
          exact hAll

------------------------------------------------------------
-- Statements
------------------------------------------------------------

/-
  How a statement spelled by `ts` ends: on its semicolon, or
  without one where it is over anyway.
-/
def StatementEnds
    (v : Node)
    (ts : List Token)
    (s s' : TokenStream) : Prop :=
  (∃ semicolon,
    semicolon.kind = .semicolon ∧
      s.Reaches (ts ++ [semicolon]) s'.advance) ∨
  (s.Reaches ts s'.advance ∧
    s'.peek.kind.precedence = .lowest ∧
    (v.IsBareReturn →
      s'.peek.kind = .rbrace ∨ s'.peek.kind = .eof))

/- A statement that ends on an expression may have a semicolon
   after it. -/
theorem statementEnds_of_expression
    {v : Node}
    {ts : List Token}
    {s₁ : TokenStream}
    (hEnd : s₁.final.kind = .eof)
    (hTs : s.Reaches ts s₁.advance)
    (hPeek : s₁.peek.kind.precedence.rank ≤ 1)
    (hReturn : ¬ v.IsBareReturn)
    (hLast :
      (if s₁.peek.kind = .semicolon then s₁.advance else s₁) =
        s') :
    StatementEnds v ts s s' := by
  subst hLast
  split
  · next hSemicolon =>
      exact .inl ⟨s₁.peek, hSemicolon,
        hTs.trans
          (Reaches.advance_of_kind (s := s₁.advance) hEnd
            hSemicolon (by decide))⟩
  · exact .inr ⟨hTs, Precedence.eq_lowest hPeek,
      fun h => absurd h hReturn⟩

theorem StatementEnds.final
    {v : Node}
    {ts : List Token}
    (h : StatementEnds v ts s s')
    (hEnd : s.final.kind = .eof) :
    s'.final.kind = .eof := by
  rcases h with ⟨_, -, hTs⟩ | ⟨hTs, -⟩
  · exact hTs.ends hEnd
  · exact hTs.ends hEnd

theorem letStatement_sound
    (hExpr : SoundAt expr)
    {v : Node}
    (hEnd : s.final.kind = .eof)
    (hWord : s.current.kind = .letWord)
    (h : letStatement expr s = .ok v s') :
    ∃ ts,
      Spells Eq (.statement v) ts ∧
        StatementEnds v ts s s' := by
  simp only [letStatement, identifierHere, bind_eq_ok,
    current_eq_ok, expect_eq_ok, advance_eq_ok,
    acceptOptional_eq_ok, pure_eq_ok] at h
  rcases h with
    ⟨_, _, ⟨rfl, rfl⟩, _, _, ⟨hName, rfl⟩, _, _,
      ⟨_, _, ⟨rfl, rfl⟩, rfl, rfl⟩, _, _, ⟨hAssign, rfl⟩, _,
      _, rfl, value, s₁, hValue, _, _, hLast, rfl, rfl⟩
  rcases hExpr.lowest
      (s := s.advance.advance.advance) hEnd hValue with
    ⟨ts, b, hSpells, hTs, hEnd₁, hPeek⟩
  have hWordStep :=
    Reaches.advance_of_kind hEnd hWord (by decide)
  have hNameStep :=
    Reaches.advance_of_kind (s := s.advance) hEnd hName
      (by decide)
  have hAssignStep :=
    Reaches.advance_of_kind (s := s.advance.advance) hEnd
      hAssign (by decide)
  refine ⟨_,
    .letStmt hWord rfl hName rfl hAssign hSpells,
    statementEnds_of_expression hEnd₁
      (hWordStep.trans
        (hNameStep.trans (hAssignStep.trans hTs)))
      hPeek ?_ hLast⟩
  rintro ⟨t, hReturn⟩
  simp at hReturn

theorem returnStatement_sound
    (hExpr : SoundAt expr)
    {v : Node}
    (hEnd : s.final.kind = .eof)
    (hWord : s.current.kind = .returnWord)
    (h : returnStatement expr s = .ok v s') :
    ∃ ts,
      Spells Eq (.statement v) ts ∧
        StatementEnds v ts s s' := by
  have hWordStep :=
    Reaches.advance_of_kind hEnd hWord (by decide)
  simp only [returnStatement, bind_eq_ok, current_eq_ok,
    peek_eq_ok] at h
  rcases h with ⟨_, _, ⟨rfl, rfl⟩, _, _, ⟨rfl, rfl⟩, h⟩
  split at h
  · next hSemicolon =>
      simp only [bind_eq_ok, advance_eq_ok, pure_eq_ok] at h
      rcases h with ⟨_, _, rfl, rfl, rfl⟩
      exact ⟨_, .bareReturn hWord rfl,
        .inl ⟨s.peek, hSemicolon,
          hWordStep.trans
            (Reaches.advance_of_kind (s := s.advance) hEnd
              hSemicolon (by decide))⟩⟩
  · split at h
    · next hBrace =>
        simp only [pure_eq_ok] at h
        rcases h with ⟨rfl, rfl⟩
        exact ⟨_, .bareReturn hWord rfl,
          .inr ⟨hWordStep, by rw [hBrace]; rfl,
            fun _ => .inl hBrace⟩⟩
    · split at h
      · next hEof =>
          simp only [pure_eq_ok] at h
          rcases h with ⟨rfl, rfl⟩
          exact ⟨_, .bareReturn hWord rfl,
            .inr ⟨hWordStep, by rw [hEof]; rfl,
              fun _ => .inr hEof⟩⟩
      · simp only [bind_eq_ok, advance_eq_ok,
          acceptOptional_eq_ok, pure_eq_ok] at h
        rcases h with
          ⟨_, _, rfl, value, s₁, hValue, _, _, hLast, rfl,
            rfl⟩
        rcases hExpr.lowest (s := s.advance) hEnd hValue with
          ⟨ts, b, hSpells, hTs, hEnd₁, hPeek⟩
        refine ⟨_, .returnStmt hWord rfl hSpells,
          statementEnds_of_expression hEnd₁
            (hWordStep.trans hTs) hPeek ?_ hLast⟩
        rintro ⟨t, hReturn⟩
        simp at hReturn

theorem expressionStatement_sound
    (hExpr : SoundAt expr)
    {v : Node}
    (hEnd : s.final.kind = .eof)
    (h : expressionStatement expr s = .ok v s') :
    ∃ ts,
      Spells Eq (.statement v) ts ∧
        StatementEnds v ts s s' := by
  simp only [expressionStatement, bind_eq_ok, current_eq_ok,
    acceptOptional_eq_ok, pure_eq_ok] at h
  rcases h with
    ⟨_, _, ⟨rfl, rfl⟩, value, s₁, hValue, _, _, hLast, rfl,
      rfl⟩
  rcases hExpr.lowest hEnd hValue with
    ⟨ts, b, hSpells, hTs, hEnd₁, hPeek⟩
  rcases hSpells.expression_opens with ⟨t, rest, rfl, -⟩
  have hFirst : t = s.current :=
    hTs.head_eq_current t rfl
  refine ⟨_, .exprStmt hSpells hFirst.symm,
    statementEnds_of_expression hEnd₁ hTs hPeek ?_ hLast⟩
  rintro ⟨u, hReturn⟩
  simp at hReturn

theorem statement_sound
    (hExpr : SoundAt expr)
    {v : Node}
    (hEnd : s.final.kind = .eof)
    (h : statement expr s = .ok v s') :
    ∃ ts,
      Spells Eq (.statement v) ts ∧
        StatementEnds v ts s s' := by
  simp only [statement, bind_eq_ok, current_eq_ok] at h
  rcases h with ⟨_, _, ⟨rfl, rfl⟩, h⟩
  generalize hKind : s.current.kind = kind at h
  split at h
  · exact letStatement_sound hExpr hEnd hKind h
  · exact returnStatement_sound hExpr hEnd hKind h
  · exact expressionStatement_sound hExpr hEnd h

------------------------------------------------------------
-- Lists of Statements
------------------------------------------------------------

/-
  Put a statement before others that start with the next token,
  if any.  That token decides whether a missing semicolon is
  missed.
-/
theorem statements_cons
    {v : Node}
    {ss : List Node}
    {ts us : List Token}
    {s₁ : TokenStream}
    (hFirst : Spells Eq (.statement v) ts)
    (hEnds : StatementEnds v ts s s₁)
    (hMore : Spells Eq (.statements ss) us)
    (hNext : ∀ t ∈ us.head?, t = s₁.advance.current) :
    ∃ ts',
      Spells Eq (.statements (v :: ss)) (ts' ++ us) ∧
        s.Reaches ts' s₁.advance := by
  rcases hEnds with
    ⟨semicolon, hSemicolon, hTs⟩ | ⟨hTs, hPeek, hReturn⟩
  · refine ⟨ts ++ [semicolon], ?_, hTs⟩
    rw [List.append_assoc]
    exact .closedStatement hFirst hSemicolon hMore
  · refine ⟨ts, .openStatement hFirst ⟨?_, ?_⟩ hMore, hTs⟩
    · intro hBare
      cases us with
      | nil => rfl
      | cons t rest =>
          have hStart := hMore.statements_opens t rfl
          rw [hNext t rfl] at hStart
          change s₁.peek.kind.StartsStatement at hStart
          rcases hReturn hBare with hKind | hKind <;>
            rw [hKind] at hStart <;>
            exact absurd hStart (by decide)
    · intro t hHead
      rw [hNext t hHead]
      exact hPeek

/- The statements of a block, with the closing brace current at
   the end. -/
theorem blockStatements_sound
    (hExpr : SoundAt expr)
    {n : Nat}
    {ss : List Node}
    (hEnd : s.final.kind = .eof)
    (h : blockStatements expr n s = .ok ss s') :
    ∃ ts,
      Spells Eq (.statements ss) ts ∧
        s.Reaches ts s' ∧
        s'.current.kind = .rbrace := by
  induction n generalizing s ss with
  | zero => simp [blockStatements] at h
  | succ n ih =>
      simp only [blockStatements, bind_eq_ok, current_eq_ok]
        at h
      rcases h with ⟨_, _, ⟨rfl, rfl⟩, h⟩
      split at h
      · next hBrace =>
          simp only [pure_eq_ok] at h
          rcases h with ⟨rfl, rfl⟩
          exact ⟨[], .noStatements, Reaches.refl _, hBrace⟩
      · split at h
        · simp at h
        · simp only [bind_eq_ok, advance_eq_ok, pure_eq_ok]
            at h
          rcases h with
            ⟨v, s₁, hStatement, _, _, rfl, more, _, hMore, rfl,
              rfl⟩
          rcases statement_sound hExpr hEnd hStatement with
            ⟨ts, hFirst, hEnds⟩
          rcases ih (s := s₁.advance) (hEnds.final hEnd)
              hMore with
            ⟨us, hSpells, hUs, hBrace⟩
          rcases statements_cons hFirst hEnds hSpells
              hUs.head_eq_current with ⟨ts', hAll, hTs'⟩
          exact ⟨ts' ++ us, hAll, hTs'.trans hUs, hBrace⟩

/- The statements of a program, up to the end of the text. -/
theorem programStatements_sound
    (hExpr : SoundAt expr)
    {n : Nat}
    {ss : List Node}
    (hEnd : s.final.kind = .eof)
    (h : programStatements expr n s = .ok ss s') :
    ∃ ts,
      Spells Eq (.statements ss) ts ∧
        s.Reaches ts s' ∧
        s'.current.kind = .eof := by
  induction n generalizing s ss with
  | zero => simp [programStatements] at h
  | succ n ih =>
      simp only [programStatements, bind_eq_ok, current_eq_ok]
        at h
      rcases h with ⟨_, _, ⟨rfl, rfl⟩, h⟩
      split at h
      · next hEof =>
          simp only [pure_eq_ok] at h
          rcases h with ⟨rfl, rfl⟩
          exact ⟨[], .noStatements, Reaches.refl _, hEof⟩
      · simp only [bind_eq_ok, advance_eq_ok, pure_eq_ok]
          at h
        rcases h with
          ⟨v, s₁, hStatement, _, _, rfl, more, _, hMore, rfl,
            rfl⟩
        rcases statement_sound hExpr hEnd hStatement with
          ⟨ts, hFirst, hEnds⟩
        rcases ih (s := s₁.advance) (hEnds.final hEnd) hMore with
          ⟨us, hSpells, hUs, hEof⟩
        rcases statements_cons hFirst hEnds hSpells
            hUs.head_eq_current with ⟨ts', hAll, hTs'⟩
        exact ⟨ts' ++ us, hAll, hTs'.trans hUs, hEof⟩

/- A block, with its closing brace current at the end. -/
theorem block_sound
    (hExpr : SoundAt expr)
    {b : Node}
    (hEnd : s.final.kind = .eof)
    (hBrace : s.current.kind = .lbrace)
    (h : block expr s = .ok b s') :
    ∃ ts,
      Spells Eq (.block b) ts ∧ s.Reaches ts s'.advance := by
  simp only [block, bind_eq_ok, current_eq_ok, advance_eq_ok,
    rounds_eq_ok, pure_eq_ok] at h
  rcases h with
    ⟨_, _, ⟨rfl, rfl⟩, _, _, rfl, _, _, ⟨rfl, rfl⟩, ss, _,
      hStatements, rfl, rfl⟩
  rcases blockStatements_sound (s := s.advance) hExpr hEnd
      hStatements with ⟨ts, hSpells, hTs, hClosing⟩
  have hOpening :=
    Reaches.advance_of_kind hEnd hBrace (by decide)
  have hClosed :=
    Reaches.advance_of_kind (hTs.ends hEnd) hClosing (by decide)
  exact ⟨_, .block hBrace rfl hSpells hClosing,
    hOpening.trans (hTs.trans hClosed)⟩

theorem alternative_sound
    (hExpr : SoundAt expr)
    {branch : Option Node}
    (hEnd : s.final.kind = .eof)
    (h : alternative expr s = .ok branch s') :
    ∃ ts,
      Spells Eq (.alternative branch) ts ∧
        s.advance.Reaches ts s'.advance := by
  simp only [alternative, bind_eq_ok, peek_eq_ok] at h
  rcases h with ⟨_, _, ⟨rfl, rfl⟩, h⟩
  split at h
  · next hWord =>
      simp only [bind_eq_ok, advance_eq_ok, expect_eq_ok,
        pure_eq_ok] at h
      rcases h with
        ⟨_, _, rfl, _, _, ⟨hBrace, rfl⟩, b, _, hBlock, rfl,
          rfl⟩
      rcases block_sound (s := s.advance.advance) hExpr hEnd
          hBrace hBlock with ⟨ts, hSpells, hTs⟩
      exact ⟨_, .alternative hWord hSpells,
        (Reaches.advance_of_kind (s := s.advance) hEnd hWord
          (by decide)).trans hTs⟩
  · simp only [pure_eq_ok] at h
    rcases h with ⟨rfl, rfl⟩
    exact ⟨[], .noAlternative, Reaches.refl _⟩

------------------------------------------------------------
-- First Parts
------------------------------------------------------------

/-
  What a first part is: an expression that only calls and
  indexings can take apart, or a prefix operator that has taken
  all of those.
-/
def FirstPartRead
    (e : Node)
    (s s' : TokenStream) : Prop :=
  ∃ ts b,
    Spells Eq (.expression e b) ts ∧
      s.Reaches ts s'.advance ∧
      Precedence.unary.rank ≤ b.rank ∧
      s'.peek.kind.precedence.rank ≤ b.rank

/- Nothing binds more tightly than a call. -/
theorem FirstPartRead.of_call
    {e : Node}
    {ts : List Token}
    (hSpells : Spells Eq (.expression e .call) ts)
    (hTs : s.Reaches ts s'.advance) :
    FirstPartRead e s s' :=
  ⟨ts, .call, hSpells, hTs, by decide,
    Precedence.rank_le_call _⟩

theorem integerLiteral_sound
    {e : Node}
    (hEnd : s.final.kind = .eof)
    (hKind : s.current.kind = .int)
    (h : integerLiteral s = .ok e s') :
    FirstPartRead e s s' := by
  simp only [integerLiteral, bind_eq_ok, current_eq_ok] at h
  rcases h with ⟨_, _, ⟨rfl, rfl⟩, h⟩
  by_cases hDigits : s.current.literal.length ≤ digitLimit
  · simp only [readInteger?, hDigits, if_true, pure_eq_ok]
      at h
    rcases h with ⟨rfl, rfl⟩
    exact .of_call (.integer hKind hDigits rfl)
      (Reaches.advance_of_kind hEnd hKind (by decide))
  · simp [readInteger?, hDigits] at h

theorem prefixExpression_sound
    (hExpr : SoundAt expr)
    {e : Node}
    (hEnd : s.final.kind = .eof)
    (hKind : s.current.kind.IsSign)
    (h : prefixExpression expr s = .ok e s') :
    FirstPartRead e s s' := by
  simp only [prefixExpression, bind_eq_ok, current_eq_ok,
    advance_eq_ok, pure_eq_ok] at h
  rcases h with
    ⟨_, _, ⟨rfl, rfl⟩, _, _, rfl, right, _, hRight, rfl, rfl⟩
  rcases hExpr (s := s.advance) hEnd (Nat.le_refl _) hRight
    with ⟨ts, b, hSpells, hTs, hAdmits, hPeek⟩
  exact ⟨_, .unary,
    .prefixOp hKind rfl hSpells hAdmits.unary_le,
    (Reaches.advance hEnd hKind.ne_eof).trans hTs,
    Nat.le_refl _, hPeek⟩

theorem groupedExpression_sound
    (hExpr : SoundAt expr)
    {e : Node}
    (hEnd : s.final.kind = .eof)
    (hOpening : s.current.kind = .lparen)
    (h : groupedExpression expr s = .ok e s') :
    FirstPartRead e s s' := by
  simp only [groupedExpression, bind_eq_ok, advance_eq_ok,
    expect_eq_ok, pure_eq_ok] at h
  rcases h with
    ⟨_, _, rfl, inner, s₁, hInner, _, _, ⟨hClosing, rfl⟩, rfl,
      rfl⟩
  rcases hExpr.lowest (s := s.advance) hEnd hInner with
    ⟨ts, b, hSpells, hTs, hEnd₁, -⟩
  exact .of_call (.group hOpening hSpells hClosing)
    ((Reaches.advance_of_kind hEnd hOpening (by decide)).trans
      (hTs.trans
        (Reaches.advance_of_kind (s := s₁.advance) hEnd₁
          hClosing (by decide))))

theorem ifExpression_sound
    (hExpr : SoundAt expr)
    {e : Node}
    (hEnd : s.final.kind = .eof)
    (hWord : s.current.kind = .ifWord)
    (h : ifExpression expr s = .ok e s') :
    FirstPartRead e s s' := by
  simp only [ifExpression, bind_eq_ok, current_eq_ok,
    advance_eq_ok, expect_eq_ok, pure_eq_ok] at h
  rcases h with
    ⟨_, _, ⟨rfl, rfl⟩, _, _, ⟨hOpening, rfl⟩, _, _, rfl, c, s₁,
      hCondition, _, _, ⟨hClosing, rfl⟩, _, _, ⟨hBrace, rfl⟩,
      consequence, s₂, hConsequence, otherwise, _, hOtherwise,
      rfl, rfl⟩
  rcases hExpr.lowest (s := s.advance.advance) hEnd
      hCondition with ⟨cs, b, hC, hCs, hEnd₁, -⟩
  rcases block_sound (s := s₁.advance.advance) hExpr hEnd₁
      hBrace hConsequence with ⟨ts, hT, hTs⟩
  rcases alternative_sound (s := s₂) hExpr
      (hTs.ends hEnd₁) hOtherwise with ⟨os, hO, hOs⟩
  have hStart :=
    (Reaches.advance_of_kind hEnd hWord (by decide)).trans
      (Reaches.advance_of_kind (s := s.advance) hEnd hOpening
        (by decide))
  have hClosingStep :=
    Reaches.advance_of_kind (s := s₁.advance) hEnd₁ hClosing
      (by decide)
  exact .of_call
    (.ifElse hWord rfl hOpening hC hClosing hT hO)
    (hStart.trans
      (hCs.trans (hClosingStep.trans (hTs.trans hOs))))

theorem functionLiteral_sound
    (hExpr : SoundAt expr)
    {e : Node}
    (hEnd : s.final.kind = .eof)
    (hWord : s.current.kind = .fnWord)
    (h : functionLiteral expr s = .ok e s') :
    FirstPartRead e s s' := by
  simp only [functionLiteral, bind_eq_ok, current_eq_ok,
    expect_eq_ok, pure_eq_ok] at h
  rcases h with
    ⟨_, _, ⟨rfl, rfl⟩, _, _, ⟨hOpening, rfl⟩, params, s₁,
      hParams, _, _, ⟨hBrace, rfl⟩, body, _, hBody, rfl, rfl⟩
  rcases parameters_sound (s := s.advance) hEnd hParams with
    ⟨ns, hNames, hNs, hClosing⟩
  have hEnd₁ : s₁.final.kind = .eof := hNs.ends hEnd
  rcases block_sound (s := s₁.advance) hExpr hEnd₁ hBrace
      hBody with ⟨ts, hB, hTs⟩
  have hStart :=
    (Reaches.advance_of_kind hEnd hWord (by decide)).trans
      (Reaches.advance_of_kind (s := s.advance) hEnd hOpening
        (by decide))
  have hClosingStep :=
    Reaches.advance_of_kind hEnd₁ hClosing (by decide)
  exact .of_call
    (.function hWord rfl hOpening hNames hClosing hB)
    (hStart.trans (hNs.trans (hClosingStep.trans hTs)))

theorem arrayLiteral_sound
    (hExpr : SoundAt expr)
    {e : Node}
    (hEnd : s.final.kind = .eof)
    (hOpening : s.current.kind = .lbracket)
    (h : arrayLiteral expr s = .ok e s') :
    FirstPartRead e s s' := by
  simp only [arrayLiteral, bind_eq_ok, current_eq_ok,
    pure_eq_ok] at h
  rcases h with
    ⟨_, _, ⟨rfl, rfl⟩, elements, s₁, hElements, rfl, rfl⟩
  rcases expressionList_sound hExpr hEnd hElements with
    ⟨ts, hSpells, hTs, hClosing⟩
  exact .of_call (.array hOpening rfl hSpells hClosing)
    ((Reaches.advance_of_kind hEnd hOpening (by decide)).trans
      (hTs.trans
        (Reaches.advance_of_kind (hTs.ends hEnd)
          hClosing (by decide))))

theorem hashLiteral_sound
    (hExpr : SoundAt expr)
    {e : Node}
    (hEnd : s.final.kind = .eof)
    (hOpening : s.current.kind = .lbrace)
    (h : hashLiteral expr s = .ok e s') :
    FirstPartRead e s s' := by
  simp only [hashLiteral, bind_eq_ok, current_eq_ok,
    rounds_eq_ok, expect_eq_ok, pure_eq_ok] at h
  rcases h with
    ⟨_, _, ⟨rfl, rfl⟩, _, _, ⟨rfl, rfl⟩, pairs, s₁, hPairs, _,
      _, ⟨hClosing, rfl⟩, rfl, rfl⟩
  rcases hashPairs_sound hExpr hEnd hPairs with
    ⟨ts, hSpells, hTs⟩
  have hEnd₁ : s₁.final.kind = .eof := hTs.ends hEnd
  exact .of_call (.hash hOpening rfl hSpells hClosing)
    ((Reaches.advance_of_kind hEnd hOpening (by decide)).trans
      (hTs.trans
        (Reaches.advance_of_kind (s := s₁.advance) hEnd₁
          hClosing (by decide))))

theorem firstPart_sound
    (hExpr : SoundAt expr)
    {e : Node}
    (hEnd : s.final.kind = .eof)
    (h : firstPart expr s = .ok e s') :
    FirstPartRead e s s' := by
  simp only [firstPart, bind_eq_ok, current_eq_ok] at h
  rcases h with ⟨_, _, ⟨rfl, rfl⟩, h⟩
  generalize hKind : s.current.kind = kind at h
  split at h
  · rw [pure_eq_ok] at h
    rcases h with ⟨rfl, rfl⟩
    exact .of_call (.identifier hKind rfl)
      (Reaches.advance_of_kind hEnd hKind (by decide))
  · exact integerLiteral_sound hEnd hKind h
  · rw [pure_eq_ok] at h
    rcases h with ⟨rfl, rfl⟩
    exact .of_call (.string hKind rfl)
      (Reaches.advance_of_kind hEnd hKind (by decide))
  · rw [pure_eq_ok] at h
    rcases h with ⟨rfl, rfl⟩
    exact .of_call (.boolTrue hKind rfl)
      (Reaches.advance_of_kind hEnd hKind (by decide))
  · rw [pure_eq_ok] at h
    rcases h with ⟨rfl, rfl⟩
    exact .of_call (.boolFalse hKind rfl)
      (Reaches.advance_of_kind hEnd hKind (by decide))
  · exact prefixExpression_sound hExpr hEnd (.inl hKind) h
  · exact prefixExpression_sound hExpr hEnd (.inr hKind) h
  · exact groupedExpression_sound hExpr hEnd hKind h
  · exact ifExpression_sound hExpr hEnd hKind h
  · exact functionLiteral_sound hExpr hEnd hKind h
  · exact arrayLiteral_sound hExpr hEnd hKind h
  · exact hashLiteral_sound hExpr hEnd hKind h
  · simp at h

------------------------------------------------------------
-- Operators, Calls, and Indexings
------------------------------------------------------------

/-
  An expression that has been read from `s` on: its spelling so
  far, that it suits what was asked for, and that the next token
  does not bind its last part more tightly.
-/
structure ReadUpTo
    (asked : Precedence)
    (e : Node)
    (ts : List Token)
    (b : Precedence)
    (s s' : TokenStream) : Prop where
  spells : Spells Eq (.expression e b) ts
  reaches : s.Reaches ts s'.advance
  admits : asked.Admits b
  peek : s'.peek.kind.precedence.rank ≤ b.rank

/- A token that claims the expression before it and is neither
   parenthesis nor bracket is an infix operator. -/
theorem isInfix_of_precedence
    {kind : TokenKind}
    {asked : Precedence}
    (hTight : asked.rank < kind.precedence.rank)
    (hParen : kind ≠ .lparen)
    (hBracket : kind ≠ .lbracket) :
    kind.IsInfix ∧
      kind.precedence.rank ≤ Precedence.product.rank := by
  have hLowest : ¬ asked.rank < Precedence.lowest.rank := by
    cases asked <;> decide
  cases kind <;>
    first
    | exact absurd rfl hParen
    | exact absurd rfl hBracket
    | exact absurd hTight hLowest
    | exact ⟨by decide, by decide⟩

/- What is as strong as a call is one. -/
theorem Precedence.eq_call
    {p : Precedence}
    (h : Precedence.call.rank ≤ p.rank) :
    p = .call := by
  cases p <;> first | rfl | exact absurd h (by decide)

theorem infixExpression_sound
    (hExpr : SoundAt expr)
    {asked a : Precedence}
    {left e : Node}
    {ls : List Token}
    {s₁ : TokenStream}
    (hEnd : s.final.kind = .eof)
    (hLeft : ReadUpTo asked left ls a s s₁)
    (hTight : asked.rank < s₁.peek.kind.precedence.rank)
    (hParen : s₁.peek.kind ≠ .lparen)
    (hBracket : s₁.peek.kind ≠ .lbracket)
    (h : infixExpression expr left s₁.advance = .ok e s') :
    ∃ ts b, ReadUpTo asked e ts b s s' := by
  simp only [infixExpression, bind_eq_ok, current_eq_ok,
    advance_eq_ok, pure_eq_ok] at h
  rcases h with
    ⟨_, _, ⟨rfl, rfl⟩, _, _, rfl, right, _, hRight, rfl, rfl⟩
  rcases isInfix_of_precedence hTight hParen hBracket with
    ⟨hInfix, hProduct⟩
  have hEnd₁ : s₁.final.kind = .eof := hLeft.reaches.ends hEnd
  rcases hExpr (s := s₁.advance.advance) hEnd₁
      (Nat.le_trans hProduct (by decide)) hRight with
    ⟨rs, b, hSpells, hRs, hAdmits, hPeek⟩
  have hOperator :=
    Reaches.advance (s := s₁.advance) hEnd₁ hInfix.ne_eof
  exact ⟨ls ++ s₁.peek :: rs, s₁.peek.kind.precedence,
    { spells := .infixOp hInfix rfl hLeft.spells hLeft.peek
        hSpells (hAdmits.lt_of_le_product hProduct)
      reaches := hLeft.reaches.trans (hOperator.trans hRs)
      admits := .inl hTight
      peek := hPeek }⟩

theorem callExpression_sound
    (hExpr : SoundAt expr)
    {asked a : Precedence}
    {callee e : Node}
    {fs : List Token}
    {s₁ : TokenStream}
    (hEnd : s.final.kind = .eof)
    (hCallee : ReadUpTo asked callee fs a s s₁)
    (hTight : asked.rank < s₁.peek.kind.precedence.rank)
    (hParen : s₁.peek.kind = .lparen)
    (h : callExpression expr callee s₁.advance = .ok e s') :
    ∃ ts b, ReadUpTo asked e ts b s s' := by
  simp only [callExpression, bind_eq_ok, current_eq_ok,
    pure_eq_ok] at h
  rcases h with ⟨_, _, ⟨rfl, rfl⟩, args, s₂, hArgs, rfl, rfl⟩
  have hEnd₁ : s₁.final.kind = .eof :=
    hCallee.reaches.ends hEnd
  rcases expressionList_sound (s := s₁.advance) hExpr hEnd₁
      hArgs with ⟨ts, hSpells, hTs, hClosing⟩
  have hPeek := hCallee.peek
  rw [hParen] at hPeek hTight
  cases Precedence.eq_call hPeek
  have hOpeningStep :=
    Reaches.advance_of_kind (s := s₁.advance) hEnd₁ hParen
      (by decide)
  have hClosingStep :=
    Reaches.advance_of_kind (hTs.ends hEnd₁) hClosing
      (by decide)
  exact ⟨_, .call,
    { spells := .call hCallee.spells hParen rfl hSpells
        hClosing
      reaches := hCallee.reaches.trans
        (hOpeningStep.trans (hTs.trans hClosingStep))
      admits := .inl hTight
      peek := Precedence.rank_le_call _ }⟩

theorem indexExpression_sound
    (hExpr : SoundAt expr)
    {asked a : Precedence}
    {left e : Node}
    {ls : List Token}
    {s₁ : TokenStream}
    (hEnd : s.final.kind = .eof)
    (hLeft : ReadUpTo asked left ls a s s₁)
    (hTight : asked.rank < s₁.peek.kind.precedence.rank)
    (hBracket : s₁.peek.kind = .lbracket)
    (h : indexExpression expr left s₁.advance = .ok e s') :
    ∃ ts b, ReadUpTo asked e ts b s s' := by
  simp only [indexExpression, bind_eq_ok, current_eq_ok,
    advance_eq_ok, expect_eq_ok, pure_eq_ok] at h
  rcases h with
    ⟨_, _, ⟨rfl, rfl⟩, _, _, rfl, subscript, s₂, hSubscript, _,
      _, ⟨hClosing, rfl⟩, rfl, rfl⟩
  have hEnd₁ : s₁.final.kind = .eof := hLeft.reaches.ends hEnd
  rcases hExpr.lowest (s := s₁.advance.advance) hEnd₁
      hSubscript with ⟨ts, b, hSpells, hTs, hEnd₂, -⟩
  have hPeek := hLeft.peek
  rw [hBracket] at hPeek hTight
  cases Precedence.eq_call hPeek
  have hOpeningStep :=
    Reaches.advance_of_kind (s := s₁.advance) hEnd₁ hBracket
      (by decide)
  have hClosingStep :=
    Reaches.advance_of_kind (s := s₂.advance) hEnd₂ hClosing
      (by decide)
  exact ⟨_, .call,
    { spells := .index hLeft.spells hBracket rfl hSpells
        hClosing
      reaches := hLeft.reaches.trans
        (hOpeningStep.trans (hTs.trans hClosingStep))
      admits := .inl hTight
      peek := Precedence.rank_le_call _ }⟩

theorem continuation_sound
    (hExpr : SoundAt expr)
    {asked a : Precedence}
    {left e : Node}
    {ls : List Token}
    {s₁ : TokenStream}
    (hEnd : s.final.kind = .eof)
    (hLeft : ReadUpTo asked left ls a s s₁)
    (hTight : asked.rank < s₁.peek.kind.precedence.rank)
    (h : continuation expr left s₁.advance = .ok e s') :
    ∃ ts b, ReadUpTo asked e ts b s s' := by
  simp only [continuation, bind_eq_ok, current_eq_ok] at h
  rcases h with ⟨_, _, ⟨rfl, rfl⟩, h⟩
  generalize hKind : s₁.advance.current.kind = kind at h
  split at h
  · exact callExpression_sound hExpr hEnd hLeft hTight hKind h
  · exact indexExpression_sound hExpr hEnd hLeft hTight hKind h
  · next hParen hBracket =>
      exact infixExpression_sound hExpr hEnd hLeft hTight
        (fun hEq => hParen (hKind.symm.trans hEq))
        (fun hEq => hBracket (hKind.symm.trans hEq)) h

theorem continuations_sound
    (hExpr : SoundAt expr)
    {asked a : Precedence}
    {n : Nat}
    {left e : Node}
    {ls : List Token}
    {s₁ : TokenStream}
    (hEnd : s.final.kind = .eof)
    (hLeft : ReadUpTo asked left ls a s s₁)
    (h : continuations expr asked n left s₁ = .ok e s') :
    (∃ ts b, ReadUpTo asked e ts b s s') ∧
      s'.peek.kind.precedence.rank ≤ asked.rank := by
  induction n generalizing left ls a s₁ with
  | zero => simp [continuations] at h
  | succ n ih =>
      simp only [continuations, bind_eq_ok, peek_eq_ok] at h
      rcases h with ⟨_, _, ⟨rfl, rfl⟩, h⟩
      split at h
      · next hTight =>
          simp only [bind_eq_ok, advance_eq_ok] at h
          rcases h with
            ⟨_, _, rfl, extended, s₂, hContinuation, h⟩
          rcases continuation_sound hExpr hEnd hLeft hTight
              hContinuation with ⟨ts, b, hExtended⟩
          exact ih hExtended h
      · next hLoose =>
          rw [pure_eq_ok] at h
          rcases h with ⟨rfl, rfl⟩
          exact ⟨⟨ls, a, hLeft⟩, Nat.le_of_not_lt hLoose⟩

------------------------------------------------------------
-- Expressions and Programs
------------------------------------------------------------

/- The expressions of any number of levels are read as the
   rules ask. -/
theorem expression_sound
    (depth : Nat) :
    SoundAt (expression depth) := by
  induction depth with
  | zero =>
      intro asked s s' e _ _ h
      simp [expression] at h
  | succ depth ih =>
      intro asked s s' e hEnd hAsked h
      simp only [expression, expressionStep, bind_eq_ok,
        rounds_eq_ok] at h
      rcases h with
        ⟨left, s₁, hFirst, _, _, ⟨rfl, rfl⟩, hContinuations⟩
      rcases firstPart_sound ih hEnd hFirst with
        ⟨ls, a, hSpells, hLs, hUnary, hPeek⟩
      have hAdmits : asked.Admits a :=
        Precedence.Admits.of_unary_le hAsked hUnary
      rcases continuations_sound ih hEnd
          ⟨hSpells, hLs, hAdmits, hPeek⟩ hContinuations with
        ⟨⟨ts, b, hRead⟩, hLast⟩
      exact ⟨ts, b, hRead.spells, hRead.reaches, hRead.admits,
        hLast⟩

theorem program_sound
    (hExpr : SoundAt expr)
    {p : Node}
    (hEnd : s.final.kind = .eof)
    (h : program expr s = .ok p s') :
    ∃ ts,
      Spells Eq (.program p) ts ∧
        s.Reaches ts s' ∧
        s'.current.kind = .eof := by
  simp only [program, bind_eq_ok, rounds_eq_ok, pure_eq_ok]
    at h
  rcases h with
    ⟨_, _, ⟨rfl, rfl⟩, ss, _, hStatements, rfl, rfl⟩
  rcases programStatements_sound hExpr hEnd hStatements with
    ⟨ts, hSpells, hTs, hEof⟩
  exact ⟨ts, .program hSpells, hTs, hEof⟩

end Parse

------------------------------------------------------------
-- Accepted Texts
------------------------------------------------------------

/- Reading up to the end of a text is reading all of its
   tokens. -/
theorem TokenStream.Reaches.eq_body
    {body ts : List Token}
    {stop : Token}
    {s : TokenStream}
    (hBody : ∀ t ∈ body, t.kind ≠ .eof)
    (hStop : stop.kind = .eof)
    (hTs : Reaches ⟨body ++ [stop], stop⟩ ts s)
    (hEof : s.current.kind = .eof) :
    ts = body := by
  have hPending : body ++ [stop] = ts ++ s.pending :=
    hTs.pending
  rcases List.append_eq_append_iff.mp hPending with
    ⟨us, rfl, hRest⟩ | ⟨us, rfl, hRest⟩
  · -- `ts` goes past the body: then it contains the end.
    cases us with
    | nil => simp
    | cons t us =>
        have hHead : stop = t := by
          simpa using congrArg List.head? hRest
        have hReal := hTs.real t (by simp)
        rw [← hHead] at hReal
        exact absurd hStop hReal
  · -- `ts` stops within the body: then the end is too early.
    cases us with
    | nil => simp
    | cons t us =>
        have hCurrent : s.current = t := by
          simp [current, hRest]
        rw [hCurrent] at hEof
        exact absurd hEof (hBody t (by simp))

/-
  The tokens of an accepted text, without its end, spell the
  program, whose nodes keep these very tokens.  Nothing is
  skipped, used twice, or made up, and every operand that needs
  parentheses has them.
-/
theorem spells_of_parseWithin
    {limit : Nat}
    {source : String}
    {p : Node}
    (h : parseWithin limit source = .ok p) :
    Spells Eq (.program p) (bodyTokens source) := by
  rcases TokenStream.ofText_eq source with
    ⟨stop, hStream, hStop, hBody⟩
  unfold parseWithin at h
  rw [hStream] at h
  split at h
  · next tree s hProgram =>
      rcases Parse.program_sound
          (Parse.expression_sound limit) hStop hProgram with
        ⟨ts, hSpells, hTs, hEof⟩
      rw [← hTs.eq_body hBody hStop hEof]
      exact Except.ok.inj h ▸ hSpells
  · simp at h

end Monkey
