import Monkey.Proofs.Parse.Soundness
import Monkey.Proofs.Token.Respelling

/-
  Up to an error, the tokens are the beginning of a program.

  Where a rule stops with an error at a token, the tokens before
  it begin what the rule reads, and can be completed by a few
  fixed tokens: names for what is missing, and the ends of what
  is open.  There is one lemma for each rule, after the lemmas
  on what the rules accept, which tell about the parts that were
  read before the one at fault.  `BegunAt` is what the rules ask
  of the parser for nested expressions.

  Main declarations:
    * `Filler`
    * `Begun`
    * `Parse.expression_begun`
    * `Parse.program_begun`
-/

namespace Monkey

------------------------------------------------------------
-- Tokens to Complete With
------------------------------------------------------------

/- Tokens that complete whatever has been begun. -/
inductive Filler where
  | name
  | assign
  | colon
  | semicolon
  | lparen
  | rparen
  | lbrace
  | rbrace
  | rbracket

namespace Filler

def kind : Filler → TokenKind
  | name => .ident
  | assign => .assign
  | colon => .colon
  | semicolon => .semicolon
  | lparen => .lparen
  | rparen => .rparen
  | lbrace => .lbrace
  | rbrace => .rbrace
  | rbracket => .rbracket

def text : Filler → List Char
  | name => ['a']
  | assign => ['=']
  | colon => [':']
  | semicolon => [';']
  | lparen => ['(']
  | rparen => [')']
  | lbrace => ['\x7b']
  | rbrace => ['\x7d']
  | rbracket => [']']

/- The token, which stands nowhere in particular. -/
def token (f : Filler) : Token where
  kind := f.kind
  literal := String.ofList f.text
  line := 0
  column := 0

/- It can be written down. -/
theorem wellFormed
    (f : Filler) :
    f.token.WellFormed := by
  change Lexeme f.kind (String.ofList f.text).toList
  rw [String.toList_ofList]
  cases f with
  | name =>
      have hWord : Lexeme _ ['a'] :=
        .word (List.cons_ne_nil _ _)
          (List.forall_mem_singleton.mpr rfl)
      exact hWord
  | _ => exact .mark rfl

end Filler

------------------------------------------------------------
-- What Has Been Begun
------------------------------------------------------------

/-
  The tokens from a stream up to the one of an error begin
  something good.
-/
def Begun
    (good : List Token → Prop)
    (s : TokenStream)
    (e : ParseError) : Prop :=
  ∃ ts fs s',
    s.Reaches ts s' ∧
      s'.current = e.token ∧
      good (ts ++ List.map Filler.token fs)

/- Tokens that spell some phrase of a sort. -/
def IsSome
    {α : Type}
    (sort : α → Phrase)
    (ts : List Token) : Prop :=
  ∃ a, Spells Eq (sort a) ts

/- Tokens that spell an expression that holds together as asked
   for. -/
def IsExpression
    (asked : Precedence)
    (ts : List Token) : Prop :=
  ∃ e b, Spells Eq (.expression e b) ts ∧ asked.Admits b

/- Tokens that spell an expression. -/
def IsAnyExpression (ts : List Token) : Prop :=
  ∃ e b, Spells Eq (.expression e b) ts

/- Tokens that spell an expression that is no infix one. -/
def IsFirstPart (ts : List Token) : Prop :=
  ∃ e b,
    Spells Eq (.expression e b) ts ∧
      Precedence.unary.rank ≤ b.rank

/- Tokens that spell parameter names. -/
def IsNames (ts : List Token) : Prop :=
  ∃ ids, SpellsNames Eq ids ts

/- Tokens that spell at least one parameter name. -/
def IsSomeNames (ts : List Token) : Prop :=
  ∃ id ids, SpellsNames Eq (id :: ids) ts

/- Tokens that spell statements, if any, that start with the
   current token. -/
def IsStatementsFrom
    (s : TokenStream)
    (ts : List Token) : Prop :=
  IsSome .statements ts ∧ ∀ t ∈ ts.head?, t = s.current

/- Whatever holds together as a call does is a first part. -/
theorem IsFirstPart.of_call
    {v : Node}
    {ts : List Token}
    (hSpells : Spells Eq (.expression v .call) ts) :
    IsFirstPart ts :=
  ⟨v, .call, hSpells, by decide⟩

/- A block without statements. -/
theorem emptyBlock :
    Spells Eq
      (.block (.block Filler.lbrace.token []))
      [Filler.lbrace.token, Filler.rbrace.token] :=
  .block rfl rfl .noStatements rfl

/- A name for an expression. -/
theorem isFirstPart_name :
    IsFirstPart [Filler.name.token] :=
  .of_call (.identifier rfl rfl)

/- No statements. -/
theorem isStatementsFrom_nil
    (s : TokenStream) :
    IsStatementsFrom s [] := by
  refine ⟨⟨[], .noStatements⟩, ?_⟩
  intro t hMem
  cases hMem

namespace Begun

variable {good good' : List Token → Prop}
variable {s s₁ : TokenStream}
variable {e : ParseError}
variable {ts : List Token}

/- The error is at the token after those that were read, which
   lack some tokens. -/
theorem missing
    (hTs : s.Reaches ts s₁)
    (hToken : s₁.current = e.token)
    (fs : List Filler)
    (hGood : good (ts ++ fs.map Filler.token)) :
    Begun good s e :=
  ⟨ts, fs, s₁, hTs, hToken, hGood⟩

/- The error is at the token after those that were read, and
   these are good as they are. -/
theorem after
    (hTs : s.Reaches ts s₁)
    (hToken : s₁.current = e.token)
    (hGood : good ts) :
    Begun good s e := by
  refine missing hTs hToken [] ?_
  rw [List.map_nil, List.append_nil]
  exact hGood

/- The error is within a part that comes after those that were
   read, and after which some tokens are still to come. -/
theorem within
    (h : Begun good s₁ e)
    (hTs : s.Reaches ts s₁)
    (fs : List Filler)
    (hGood :
      ∀ us, good us →
        good' (ts ++ (us ++ fs.map Filler.token))) :
    Begun good' s e := by
  rcases h with ⟨us, gs, s', hUs, hToken, hPart⟩
  refine ⟨ts ++ us, gs ++ fs, s', hTs.trans hUs, hToken, ?_⟩
  have hWhole := hGood _ hPart
  rwa [List.append_assoc, ← List.map_append,
    ← List.append_assoc] at hWhole

/- The error is within the last part. -/
theorem last
    (h : Begun good s₁ e)
    (hTs : s.Reaches ts s₁)
    (hGood : ∀ us, good us → good' (ts ++ us)) :
    Begun good' s e := by
  refine h.within hTs [] fun us hPart => ?_
  rw [List.map_nil, List.append_nil]
  exact hGood us hPart

/- What begins one thing may begin another. -/
theorem imp
    (h : Begun good s e)
    (hGood : ∀ us, good us → good' us) :
    Begun good' s e := by
  rcases h with ⟨us, gs, s', hUs, hToken, hPart⟩
  exact ⟨us, gs, s', hUs, hToken, hGood _ hPart⟩

/-
  A statement that has been begun, and a semicolon.  If not even
  its first token was read there is no statement at all: then
  the list is over before it.
-/
theorem onlyStatement
    (h : Begun (IsSome .statement) s e) :
    Begun (IsStatementsFrom s) s e := by
  rcases h with ⟨ts, fs, s₁, hTs, hToken, v, hSpells⟩
  cases ts with
  | nil => exact after hTs hToken (isStatementsFrom_nil s)
  | cons t rest =>
      refine missing hTs hToken (fs ++ [.semicolon])
        ⟨?_, hTs.head_eq_current⟩
      have hOne :=
        Spells.closedStatement hSpells
          (rfl : Filler.semicolon.token.kind = .semicolon)
          .noStatements
      rw [List.map_append, ← List.append_assoc]
      exact ⟨_, hOne⟩

/- Statements that have been begun after a first one. -/
theorem afterStatement
    {v : Node}
    (h : Begun (IsStatementsFrom s₁.advance) s₁.advance e)
    (hFirst : Spells Eq (.statement v) ts)
    (hEnds : Parse.StatementEnds v ts s s₁) :
    Begun (IsStatementsFrom s) s e := by
  rcases h with
    ⟨us, fs, s₂, hUs, hToken, ⟨ss, hSs⟩, hHead⟩
  rcases Parse.statements_cons hFirst hEnds hSs hHead with
    ⟨vs, hAll, hVs⟩
  refine missing (hVs.trans hUs) hToken fs ?_
  rw [List.append_assoc]
  refine ⟨⟨v :: ss, hAll⟩, ?_⟩
  cases vs with
  | nil =>
      intro t hMem
      rw [hHead t hMem]
      exact hVs.current_eq
  | cons u rest => exact hVs.head_eq_current

end Begun

namespace Parse

open TokenStream (Reaches)

variable {s s' : TokenStream}
variable {e : ParseError}

------------------------------------------------------------
-- Names
------------------------------------------------------------

/- Names after commas, read with the first name current. -/
theorem moreParameters_begun
    {n : Nat}
    (hEnd : s.final.kind = .eof)
    (hKind : s.current.kind = .ident)
    (h : moreParameters n s = .error (.error e) s') :
    Begun IsSomeNames s e := by
  induction n generalizing s with
  | zero => cases h
  | succ n ih =>
      simp only [moreParameters, bind_peek] at h
      split at h
      · next hComma =>
          have hTs :=
            (Reaches.advance_of_kind hEnd hKind
              (by decide)).trans
              (Reaches.advance_of_kind (s := s.advance) hEnd
                hComma (by decide))
          rw [bind_advance] at h
          rcases bind_expect_failed h with hToken | ⟨hName, h⟩
          · exact .missing hTs hToken [.name]
              ⟨_, _, .more hKind rfl hComma (.one rfl rfl)⟩
          · rw [bind_identifierHere] at h
            have hMore :=
              ih (s := s.advance.advance) hEnd hName
                (bind_pure_failed h)
            refine hMore.last hTs ?_
            rintro us ⟨id, ids, hNames⟩
            exact ⟨_, _, .more hKind rfl hComma hNames⟩
      · cases h

/- Parameters, read with the opening parenthesis current. -/
theorem parameters_begun
    (hEnd : s.final.kind = .eof)
    (h : parameters s = .error (.error e) s') :
    Begun IsNames s.advance e := by
  simp only [parameters, bind_peek] at h
  split at h
  · cases h
  · rcases bind_expect_failed h with hToken | ⟨hName, h⟩
    · exact .after (Reaches.refl _) hToken ⟨[], .none⟩
    · rw [bind_identifierHere, bind_rounds] at h
      rcases bind_failed h with h | ⟨more, s₁, hMore, h⟩
      · have hNames :=
          moreParameters_begun (s := s.advance) hEnd hName h
        refine hNames.imp ?_
        rintro us ⟨id, ids, hSpells⟩
        exact ⟨_, hSpells⟩
      · rcases moreParameters_sound (s := s.advance) hEnd hName
            hMore with ⟨ts, hNames, hTs⟩
        rcases bind_expect_failed h with hToken | ⟨-, h⟩
        · exact .after hTs hToken ⟨_, hNames⟩
        · cases h

------------------------------------------------------------
-- Lists of Expressions
------------------------------------------------------------

/- What the rules ask of the parser for nested expressions: up to
   an error, it has read the beginning of an expression. -/
def BegunAt (expr : Precedence → Parse Node) : Prop :=
  ∀ {asked : Precedence} {s s' : TokenStream}
    {e : ParseError},
    s.final.kind = .eof →
      asked.rank ≤ Precedence.unary.rank →
        expr asked s = .error (.error e) s' →
          Begun (IsExpression asked) s e

variable {expr : Precedence → Parse Node}

section

variable (hSound : SoundAt expr)
variable (hExpr : BegunAt expr)

include hExpr in
/- An expression where nothing in particular is asked for. -/
theorem BegunAt.lowest
    (hEnd : s.final.kind = .eof)
    (h : expr .lowest s = .error (.error e) s') :
    Begun IsAnyExpression s e := by
  refine (hExpr hEnd (by decide) h).imp ?_
  rintro us ⟨v, b, hSpells, -⟩
  exact ⟨v, b, hSpells⟩

include hSound hExpr

theorem moreExpressions_begun
    {n : Nat}
    (hEnd : s.final.kind = .eof)
    (h : moreExpressions expr n s = .error (.error e) s') :
    Begun (IsSome .furtherItems) s.advance e := by
  induction n generalizing s with
  | zero => cases h
  | succ n ih =>
      simp only [moreExpressions, bind_peek] at h
      split at h
      · next hComma =>
          have hCommaStep :=
            Reaches.advance_of_kind (s := s.advance) hEnd
              hComma (by decide)
          rw [bind_advance, bind_advance] at h
          rcases bind_failed h with h | ⟨item, s₁, hItem, h⟩
          · have hItem :=
              hExpr.lowest (s := s.advance.advance) hEnd h
            refine hItem.last hCommaStep ?_
            rintro us ⟨v, b, hSpells⟩
            have hOne :=
              Spells.furtherItems hComma hSpells .noFurtherItems
            rw [List.append_nil] at hOne
            exact ⟨_, hOne⟩
          · rcases hSound.lowest (s := s.advance.advance) hEnd
                hItem with ⟨ts, b, hSpells, hTs, hEnd₁, -⟩
            have hMore := ih hEnd₁ (bind_pure_failed h)
            refine hMore.last (hCommaStep.trans hTs) ?_
            rintro us ⟨es, hFurther⟩
            exact ⟨_, .furtherItems hComma hSpells hFurther⟩
      · cases h

/- A list, read with its opening token current. -/
theorem expressionList_begun
    {close : TokenKind}
    (hEnd : s.final.kind = .eof)
    (h : expressionList expr close s = .error (.error e) s') :
    Begun (IsSome .items) s.advance e := by
  simp only [expressionList, bind_peek] at h
  split at h
  · cases h
  · rw [bind_advance] at h
    rcases bind_failed h with h | ⟨first, s₁, hFirst, h⟩
    · have hFirst := hExpr.lowest (s := s.advance) hEnd h
      refine hFirst.imp ?_
      rintro us ⟨v, b, hSpells⟩
      have hOne := Spells.items hSpells .noFurtherItems
      rw [List.append_nil] at hOne
      exact ⟨_, hOne⟩
    · rcases hSound.lowest (s := s.advance) hEnd hFirst with
        ⟨ts, b, hSpells, hTs, hEnd₁, -⟩
      rw [bind_rounds] at h
      rcases bind_failed h with h | ⟨more, s₂, hMore, h⟩
      · have hMore := moreExpressions_begun hSound hExpr hEnd₁ h
        refine hMore.last hTs ?_
        rintro us ⟨es, hFurther⟩
        exact ⟨_, .items hSpells hFurther⟩
      · rcases moreExpressions_sound hSound hEnd₁ hMore with
          ⟨us, hFurther, hUs⟩
        rcases bind_expect_failed h with hToken | ⟨-, h⟩
        · exact .after (hTs.trans hUs) hToken
            ⟨_, .items hSpells hFurther⟩
        · cases h

omit hSound hExpr in
/- Where the pairs of a hash end, none are at fault. -/
theorem hashPairs_at_end_ne_error
    {n : Nat}
    (hAtEnd :
      (s.peek.kind == .rbrace || s.peek.kind == .eof) = true) :
    hashPairs expr n s ≠ .error (.error e) s' := by
  intro h
  cases n with
  | zero => cases h
  | succ n =>
      simp only [hashPairs, bind_atPairsEnd] at h
      rw [if_pos hAtEnd] at h
      cases h

omit hSound hExpr in
/- The pairs of a hash after one that has been read. -/
theorem pairsAfter_begun
    {n : Nat}
    {key value : Node}
    {a b : Precedence}
    {colon : Token}
    {ks vs : List Token}
    {s₁ : TokenStream}
    (hKey : Spells Eq (.expression key a) ks)
    (hColon : colon.kind = .colon)
    (hValue : Spells Eq (.expression value b) vs)
    (hPair : s.Reaches (ks ++ colon :: vs) s₁.advance)
    (hEnd : s₁.final.kind = .eof)
    (hMore :
      ∀ s : TokenStream, s.final.kind = .eof →
        hashPairs expr n s = .error (.error e) s' →
          Begun (IsSome .pairs) s.advance e)
    (h :
      (do
        if ← atPairsEnd then
          let more ← hashPairs expr n
          return (key, value) :: more
        else
          expect .comma
          let more ← hashPairs expr n
          return (key, value) :: more :
            Parse (List (Node × Node))) s₁ =
        .error (.error e) s') :
    Begun (IsSome .pairs) s e := by
  rw [bind_atPairsEnd] at h
  split at h
  · next hLast =>
      exact absurd (bind_pure_failed h)
        (hashPairs_at_end_ne_error hLast)
  · rcases bind_expect_failed h with hToken | ⟨hComma, h⟩
    · exact .after hPair hToken
        ⟨_, .lastPair hKey hColon hValue⟩
    · have hCommaStep :=
        Reaches.advance_of_kind (s := s₁.advance) hEnd hComma
          (by decide)
      have hOthers :=
        hMore s₁.advance hEnd (bind_pure_failed h)
      refine hOthers.last (hPair.trans hCommaStep) ?_
      rintro us ⟨ps, hSpells⟩
      have hAll :=
        Spells.pairThen hKey hColon hValue hComma hSpells
      refine ⟨(key, value) :: ps, ?_⟩
      simpa using hAll

/- The pairs of a hash, read with the token before the first
   one current. -/
theorem hashPairs_begun
    {n : Nat}
    (hEnd : s.final.kind = .eof)
    (h : hashPairs expr n s = .error (.error e) s') :
    Begun (IsSome .pairs) s.advance e := by
  induction n generalizing s with
  | zero => cases h
  | succ n ih =>
      simp only [hashPairs, bind_atPairsEnd] at h
      split at h
      · cases h
      · rw [bind_advance] at h
        rcases bind_failed h with h | ⟨key, s₁, hKey, h⟩
        · have hKey := hExpr.lowest (s := s.advance) hEnd h
          refine hKey.within (Reaches.refl _)
            [.colon, .name] ?_
          rintro us ⟨v, a, hSpells⟩
          exact ⟨_, .lastPair hSpells rfl
            (.identifier rfl rfl)⟩
        · rcases hSound.lowest (s := s.advance) hEnd hKey with
            ⟨ks, a, hKeySpells, hKs, hEnd₁, -⟩
          rcases bind_expect_failed h with hToken | ⟨hColon, h⟩
          · exact .missing hKs hToken [.colon, .name]
              ⟨_, .lastPair hKeySpells rfl
                (.identifier rfl rfl)⟩
          · have hColonStep :=
              Reaches.advance_of_kind (s := s₁.advance) hEnd₁
                hColon (by decide)
            rw [bind_advance] at h
            rcases bind_failed h with
              h | ⟨value, s₂, hValue, h⟩
            · have hValue :=
                hExpr.lowest (s := s₁.advance.advance) hEnd₁ h
              refine hValue.last (hKs.trans hColonStep) ?_
              rintro us ⟨v, b, hSpells⟩
              rw [List.append_assoc]
              exact ⟨_, .lastPair hKeySpells hColon hSpells⟩
            · rcases hSound.lowest (s := s₁.advance.advance)
                  hEnd₁ hValue with
                ⟨vs, b, hValueSpells, hVs, hEnd₂, -⟩
              exact pairsAfter_begun hKeySpells hColon
                hValueSpells
                (hKs.trans (hColonStep.trans hVs)) hEnd₂
                (fun _ hEnd h => ih hEnd h) h

------------------------------------------------------------
-- Statements
------------------------------------------------------------

omit hSound in
theorem letStatement_begun
    (hEnd : s.final.kind = .eof)
    (hWord : s.current.kind = .letWord)
    (h : letStatement expr s = .error (.error e) s') :
    Begun (IsSome .statement) s e := by
  have hWordStep :=
    Reaches.advance_of_kind hEnd hWord (by decide)
  rw [letStatement, bind_current] at h
  rcases bind_expect_failed h with hToken | ⟨hName, h⟩
  · exact .missing hWordStep hToken [.name, .assign, .name]
      ⟨_, .letStmt hWord rfl rfl rfl rfl
        (.identifier rfl rfl)⟩
  · have hNameStep :=
      Reaches.advance_of_kind (s := s.advance) hEnd hName
        (by decide)
    rw [bind_identifierHere] at h
    rcases bind_expect_failed h with hToken | ⟨hAssign, h⟩
    · exact .missing (hWordStep.trans hNameStep) hToken
        [.assign, .name]
        ⟨_, .letStmt hWord rfl hName rfl rfl
          (.identifier rfl rfl)⟩
    · have hAssignStep :=
        Reaches.advance_of_kind (s := s.advance.advance) hEnd
          hAssign (by decide)
      rw [bind_advance] at h
      rcases bind_failed h with h | ⟨value, s₁, -, h⟩
      · have hValue :=
          hExpr.lowest (s := s.advance.advance.advance) hEnd h
        refine hValue.last
          (hWordStep.trans (hNameStep.trans hAssignStep)) ?_
        rintro us ⟨v, b, hSpells⟩
        exact ⟨_, .letStmt hWord rfl hName rfl hAssign hSpells⟩
      · rcases bind_acceptOptional_failed h with ⟨t, h⟩
        cases h

omit hSound in
theorem returnStatement_begun
    (hEnd : s.final.kind = .eof)
    (hWord : s.current.kind = .returnWord)
    (h : returnStatement expr s = .error (.error e) s') :
    Begun (IsSome .statement) s e := by
  have hWordStep :=
    Reaches.advance_of_kind hEnd hWord (by decide)
  simp only [returnStatement, bind_current, bind_peek] at h
  split at h
  · cases h
  · split at h
    · cases h
    · split at h
      · cases h
      · rw [bind_advance] at h
        rcases bind_failed h with h | ⟨value, s₁, -, h⟩
        · have hValue := hExpr.lowest (s := s.advance) hEnd h
          refine hValue.last hWordStep ?_
          rintro us ⟨v, b, hSpells⟩
          exact ⟨_, .returnStmt hWord rfl hSpells⟩
        · rcases bind_acceptOptional_failed h with ⟨t, h⟩
          cases h

omit hSound in
theorem expressionStatement_begun
    (hEnd : s.final.kind = .eof)
    (h : expressionStatement expr s = .error (.error e) s') :
    Begun (IsSome .statement) s e := by
  rw [expressionStatement, bind_current] at h
  rcases bind_failed h with h | ⟨value, s₁, -, h⟩
  · refine (hExpr.lowest hEnd h).imp ?_
    rintro us ⟨v, b, hSpells⟩
    rcases hSpells.expression_opens with ⟨t, rest, rfl, -⟩
    exact ⟨_, .exprStmt hSpells rfl⟩
  · rcases bind_acceptOptional_failed h with ⟨t, h⟩
    cases h

omit hSound in
theorem statement_begun
    (hEnd : s.final.kind = .eof)
    (h : statement expr s = .error (.error e) s') :
    Begun (IsSome .statement) s e := by
  rw [statement, bind_current] at h
  generalize hKind : s.current.kind = kind at h
  split at h
  · exact letStatement_begun hExpr hEnd hKind h
  · exact returnStatement_begun hExpr hEnd hKind h
  · exact expressionStatement_begun hExpr hEnd h

------------------------------------------------------------
-- Lists of Statements
------------------------------------------------------------

/- One statement and those after it. -/
theorem consStatement_begun
    {more : Parse (List Node)}
    (hMore :
      ∀ s : TokenStream, s.final.kind = .eof →
        more s = .error (.error e) s' →
          Begun (IsStatementsFrom s) s e)
    (hEnd : s.final.kind = .eof)
    (h :
      (do
        let first ← statement expr
        advance
        let others ← more
        return first :: others : Parse (List Node)) s =
        .error (.error e) s') :
    Begun (IsStatementsFrom s) s e := by
  rcases bind_failed h with h | ⟨v, s₁, hStatement, h⟩
  · exact (statement_begun hExpr hEnd h).onlyStatement
  · rcases statement_sound hSound hEnd hStatement with
      ⟨ts, hFirst, hEnds⟩
    rw [bind_advance] at h
    have hOthers :=
      hMore s₁.advance (hEnds.final hEnd) (bind_pure_failed h)
    exact hOthers.afterStatement hFirst hEnds

theorem blockStatements_begun
    {n : Nat}
    (hEnd : s.final.kind = .eof)
    (h : blockStatements expr n s = .error (.error e) s') :
    Begun (IsStatementsFrom s) s e := by
  induction n generalizing s with
  | zero => cases h
  | succ n ih =>
      simp only [blockStatements, bind_current] at h
      split at h
      · cases h
      · split at h
        · -- The text ends within the block.
          cases h
          exact .after (Reaches.refl _) rfl
            (isStatementsFrom_nil _)
        · exact consStatement_begun hSound hExpr
            (fun _ hEnd h => ih hEnd h) hEnd h

theorem programStatements_begun
    {n : Nat}
    (hEnd : s.final.kind = .eof)
    (h : programStatements expr n s = .error (.error e) s') :
    Begun (IsStatementsFrom s) s e := by
  induction n generalizing s with
  | zero => cases h
  | succ n ih =>
      simp only [programStatements, bind_current] at h
      split at h
      · cases h
      · exact consStatement_begun hSound hExpr
          (fun _ hEnd h => ih hEnd h) hEnd h

/- A block, read with its opening brace current. -/
theorem block_begun
    (hEnd : s.final.kind = .eof)
    (hBrace : s.current.kind = .lbrace)
    (h : block expr s = .error (.error e) s') :
    Begun (IsSome .block) s e := by
  have hOpening :=
    Reaches.advance_of_kind hEnd hBrace (by decide)
  rw [block, bind_current, bind_advance, bind_rounds] at h
  have hStatements :=
    blockStatements_begun (s := s.advance) hSound hExpr hEnd
      (bind_pure_failed h)
  refine hStatements.within hOpening [.rbrace] ?_
  rintro us ⟨⟨ss, hSpells⟩, -⟩
  exact ⟨_, .block hBrace rfl hSpells rfl⟩

/- An alternative, read with the token before it current. -/
theorem alternative_begun
    (hEnd : s.final.kind = .eof)
    (h : alternative expr s = .error (.error e) s') :
    Begun (IsSome .alternative) s.advance e := by
  rw [alternative, bind_peek] at h
  split at h
  · next hWord =>
      have hWordStep :=
        Reaches.advance_of_kind (s := s.advance) hEnd hWord
          (by decide)
      rw [bind_advance] at h
      rcases bind_expect_failed h with hToken | ⟨hBrace, h⟩
      · exact .missing hWordStep hToken [.lbrace, .rbrace]
          ⟨_, .alternative hWord emptyBlock⟩
      · have hBlock :=
          block_begun (s := s.advance.advance) hSound hExpr hEnd
            hBrace (bind_pure_failed h)
        refine hBlock.last hWordStep ?_
        rintro us ⟨branch, hSpells⟩
        exact ⟨_, .alternative hWord hSpells⟩
  · cases h

------------------------------------------------------------
-- First Parts
------------------------------------------------------------

omit hSound hExpr in
theorem integerLiteral_begun
    (h : integerLiteral s = .error (.error e) s') :
    Begun IsFirstPart s e := by
  rw [integerLiteral, bind_current] at h
  cases hRead : readInteger? s.current.literal with
  | some n =>
      rw [hRead] at h
      cases h
  | none =>
      rw [hRead] at h
      cases h
      exact .missing (Reaches.refl _) rfl [.name]
        isFirstPart_name

omit hSound in
theorem prefixExpression_begun
    (hEnd : s.final.kind = .eof)
    (hKind : s.current.kind.IsSign)
    (h : prefixExpression expr s = .error (.error e) s') :
    Begun IsFirstPart s e := by
  rw [prefixExpression, bind_current, bind_advance] at h
  have hRight :=
    hExpr (s := s.advance) hEnd (Nat.le_refl _)
      (bind_pure_failed h)
  refine hRight.last (Reaches.advance hEnd hKind.ne_eof) ?_
  rintro us ⟨right, b, hSpells, hAdmits⟩
  exact ⟨_, .unary,
    .prefixOp hKind rfl hSpells hAdmits.unary_le,
    Nat.le_refl _⟩

theorem groupedExpression_begun
    (hEnd : s.final.kind = .eof)
    (hOpening : s.current.kind = .lparen)
    (h : groupedExpression expr s = .error (.error e) s') :
    Begun IsFirstPart s e := by
  have hOpeningStep :=
    Reaches.advance_of_kind hEnd hOpening (by decide)
  rw [groupedExpression, bind_advance] at h
  rcases bind_failed h with h | ⟨inner, s₁, hInner, h⟩
  · have hInner := hExpr.lowest (s := s.advance) hEnd h
    refine hInner.within hOpeningStep [.rparen] ?_
    rintro us ⟨v, b, hSpells⟩
    exact .of_call (.group hOpening hSpells rfl)
  · rcases hSound.lowest (s := s.advance) hEnd hInner with
      ⟨ts, b, hSpells, hTs, -, -⟩
    rcases bind_expect_failed h with hToken | ⟨-, h⟩
    · exact .missing (hOpeningStep.trans hTs) hToken [.rparen]
        (.of_call (.group hOpening hSpells rfl))
    · cases h

theorem ifExpression_begun
    (hEnd : s.final.kind = .eof)
    (hWord : s.current.kind = .ifWord)
    (h : ifExpression expr s = .error (.error e) s') :
    Begun IsFirstPart s e := by
  have hWordStep :=
    Reaches.advance_of_kind hEnd hWord (by decide)
  rw [ifExpression, bind_current] at h
  rcases bind_expect_failed h with hToken | ⟨hOpening, h⟩
  · exact .missing hWordStep hToken
      [.lparen, .name, .rparen, .lbrace, .rbrace]
      (.of_call
        (.ifElse hWord rfl rfl (.identifier rfl rfl) rfl
          emptyBlock .noAlternative))
  have hStart :=
    hWordStep.trans
      (Reaches.advance_of_kind (s := s.advance) hEnd hOpening
        (by decide))
  rw [bind_advance] at h
  rcases bind_failed h with h | ⟨c, s₁, hCondition, h⟩
  · have hCondition :=
      hExpr.lowest (s := s.advance.advance) hEnd h
    refine hCondition.within hStart
      [.rparen, .lbrace, .rbrace] ?_
    rintro us ⟨v, b, hSpells⟩
    exact .of_call
      (.ifElse hWord rfl hOpening hSpells rfl emptyBlock
        .noAlternative)
  rcases hSound.lowest (s := s.advance.advance) hEnd
      hCondition with ⟨cs, b, hC, hCs, hEnd₁, -⟩
  rcases bind_expect_failed h with hToken | ⟨hClosing, h⟩
  · refine .missing (hStart.trans hCs) hToken
      [.rparen, .lbrace, .rbrace] ?_
    exact .of_call
      (.ifElse hWord rfl hOpening hC rfl emptyBlock
        .noAlternative)
  have hHead :=
    hStart.trans
      (hCs.trans
        (Reaches.advance_of_kind (s := s₁.advance) hEnd₁
          hClosing (by decide)))
  have hWhole :
      ∀ {ts es consequence otherwise},
        Spells Eq (.block consequence) ts →
          Spells Eq (.alternative otherwise) es →
            IsFirstPart
              ([s.current] ++ [s.advance.current] ++
                (cs ++ [s₁.advance.current]) ++ (ts ++ es)) := by
    intro ts es consequence otherwise hT hO
    have hAll :=
      Spells.ifElse hWord rfl hOpening hC hClosing hT hO
    exact .of_call (by simpa using hAll)
  rcases bind_expect_failed h with hToken | ⟨hBrace, h⟩
  · exact .missing hHead hToken [.lbrace, .rbrace]
      (hWhole emptyBlock .noAlternative)
  rcases bind_failed h with h | ⟨t, s₂, hConsequence, h⟩
  · have hBlock :=
      block_begun (s := s₁.advance.advance) hSound hExpr hEnd₁
        hBrace h
    refine hBlock.within hHead [] ?_
    rintro us ⟨t, hT⟩
    exact hWhole hT .noAlternative
  · rcases block_sound (s := s₁.advance.advance) hSound hEnd₁
        hBrace hConsequence with ⟨ts, hT, hTs⟩
    have hAlternative :=
      alternative_begun (s := s₂) hSound hExpr
        (hTs.ends hEnd₁) (bind_pure_failed h)
    refine hAlternative.last (hHead.trans hTs) ?_
    rintro us ⟨o, hO⟩
    rw [List.append_assoc]
    exact hWhole hT hO

theorem functionLiteral_begun
    (hEnd : s.final.kind = .eof)
    (hWord : s.current.kind = .fnWord)
    (h : functionLiteral expr s = .error (.error e) s') :
    Begun IsFirstPart s e := by
  have hWordStep :=
    Reaches.advance_of_kind hEnd hWord (by decide)
  rw [functionLiteral, bind_current] at h
  rcases bind_expect_failed h with hToken | ⟨hOpening, h⟩
  · exact .missing hWordStep hToken
      [.lparen, .rparen, .lbrace, .rbrace]
      (.of_call
        (.function hWord rfl rfl .none rfl emptyBlock))
  have hStart :=
    hWordStep.trans
      (Reaches.advance_of_kind (s := s.advance) hEnd hOpening
        (by decide))
  rcases bind_failed h with h | ⟨params, s₁, hParams, h⟩
  · have hNames := parameters_begun (s := s.advance) hEnd h
    refine hNames.within hStart [.rparen, .lbrace, .rbrace] ?_
    rintro us ⟨ids, hIds⟩
    exact .of_call
      (.function hWord rfl hOpening hIds rfl emptyBlock)
  rcases parameters_sound (s := s.advance) hEnd hParams with
    ⟨ns, hNames, hNs, hClosing⟩
  have hEnd₁ : s₁.final.kind = .eof := hNs.ends hEnd
  have hHead :=
    hStart.trans
      (hNs.trans
        (Reaches.advance_of_kind hEnd₁ hClosing (by decide)))
  have hWhole :
      ∀ {ts body},
        Spells Eq (.block body) ts →
          IsFirstPart
            ([s.current] ++ [s.advance.current] ++
              (ns ++ [s₁.current]) ++ ts) := by
    intro ts body hB
    have hAll :=
      Spells.function hWord rfl hOpening hNames hClosing hB
    exact .of_call (by simpa using hAll)
  rcases bind_expect_failed h with hToken | ⟨hBrace, h⟩
  · exact .missing hHead hToken [.lbrace, .rbrace]
      (hWhole emptyBlock)
  · have hBlock :=
      block_begun (s := s₁.advance) hSound hExpr hEnd₁ hBrace
        (bind_pure_failed h)
    refine hBlock.last hHead ?_
    rintro us ⟨body, hB⟩
    exact hWhole hB

theorem arrayLiteral_begun
    (hEnd : s.final.kind = .eof)
    (hOpening : s.current.kind = .lbracket)
    (h : arrayLiteral expr s = .error (.error e) s') :
    Begun IsFirstPart s e := by
  rw [arrayLiteral, bind_current] at h
  have hElements :=
    expressionList_begun hSound hExpr hEnd (bind_pure_failed h)
  refine hElements.within
    (Reaches.advance_of_kind hEnd hOpening (by decide))
    [.rbracket] ?_
  rintro us ⟨es, hSpells⟩
  exact .of_call (.array hOpening rfl hSpells rfl)

theorem hashLiteral_begun
    (hEnd : s.final.kind = .eof)
    (hOpening : s.current.kind = .lbrace)
    (h : hashLiteral expr s = .error (.error e) s') :
    Begun IsFirstPart s e := by
  have hOpeningStep :=
    Reaches.advance_of_kind hEnd hOpening (by decide)
  rw [hashLiteral, bind_current, bind_rounds] at h
  rcases bind_failed h with h | ⟨pairs, s₁, hPairs, h⟩
  · have hPairs := hashPairs_begun hSound hExpr hEnd h
    refine hPairs.within hOpeningStep [.rbrace] ?_
    rintro us ⟨ps, hSpells⟩
    exact .of_call (.hash hOpening rfl hSpells rfl)
  · rcases hashPairs_sound hSound hEnd hPairs with
      ⟨ts, hSpells, hTs⟩
    rcases bind_expect_failed h with hToken | ⟨-, h⟩
    · exact .missing (hOpeningStep.trans hTs) hToken [.rbrace]
        (.of_call (.hash hOpening rfl hSpells rfl))
    · cases h

theorem firstPart_begun
    (hEnd : s.final.kind = .eof)
    (h : firstPart expr s = .error (.error e) s') :
    Begun IsFirstPart s e := by
  rw [firstPart, bind_current] at h
  generalize hKind : s.current.kind = kind at h
  split at h
  · cases h
  · exact integerLiteral_begun h
  · cases h
  · cases h
  · cases h
  · exact prefixExpression_begun hExpr hEnd (.inl hKind) h
  · exact prefixExpression_begun hExpr hEnd (.inr hKind) h
  · exact groupedExpression_begun hSound hExpr hEnd hKind h
  · exact ifExpression_begun hSound hExpr hEnd hKind h
  · exact functionLiteral_begun hSound hExpr hEnd hKind h
  · exact arrayLiteral_begun hSound hExpr hEnd hKind h
  · exact hashLiteral_begun hSound hExpr hEnd hKind h
  · cases h
    exact .missing (Reaches.refl _) rfl [.name]
      isFirstPart_name

------------------------------------------------------------
-- Operators, Calls, and Indexings
------------------------------------------------------------

section

variable {asked a : Precedence}
variable {left : Node}
variable {ls : List Token}
variable {s₁ : TokenStream}

omit hSound in
theorem infixExpression_begun
    (hEnd : s.final.kind = .eof)
    (hLeft : ReadUpTo asked left ls a s s₁)
    (hTight : asked.rank < s₁.peek.kind.precedence.rank)
    (hParen : s₁.peek.kind ≠ .lparen)
    (hBracket : s₁.peek.kind ≠ .lbracket)
    (h :
      infixExpression expr left s₁.advance =
        .error (.error e) s') :
    Begun (IsExpression asked) s e := by
  rcases isInfix_of_precedence hTight hParen hBracket with
    ⟨hInfix, hProduct⟩
  have hEnd₁ : s₁.final.kind = .eof := hLeft.reaches.ends hEnd
  rw [infixExpression, bind_current, bind_advance] at h
  have hRight :=
    hExpr (s := s₁.advance.advance) hEnd₁
      (Nat.le_trans hProduct (by decide)) (bind_pure_failed h)
  have hOperator :=
    Reaches.advance (s := s₁.advance) hEnd₁ hInfix.ne_eof
  refine hRight.last (hLeft.reaches.trans hOperator) ?_
  rintro us ⟨right, b, hSpells, hAdmits⟩
  rw [List.append_assoc]
  exact ⟨_, _,
    .infixOp hInfix rfl hLeft.spells hLeft.peek hSpells
      (hAdmits.lt_of_le_product hProduct),
    .inl hTight⟩

theorem callExpression_begun
    (hEnd : s.final.kind = .eof)
    (hCallee : ReadUpTo asked left ls a s s₁)
    (hTight : asked.rank < s₁.peek.kind.precedence.rank)
    (hParen : s₁.peek.kind = .lparen)
    (h :
      callExpression expr left s₁.advance =
        .error (.error e) s') :
    Begun (IsExpression asked) s e := by
  have hEnd₁ : s₁.final.kind = .eof :=
    hCallee.reaches.ends hEnd
  have hPeek := hCallee.peek
  rw [hParen] at hPeek hTight
  cases Precedence.eq_call hPeek
  rw [callExpression, bind_current] at h
  have hArgs :=
    expressionList_begun (s := s₁.advance) hSound hExpr hEnd₁
      (bind_pure_failed h)
  have hOpening :=
    Reaches.advance_of_kind (s := s₁.advance) hEnd₁ hParen
      (by decide)
  refine hArgs.within (hCallee.reaches.trans hOpening)
    [.rparen] ?_
  rintro us ⟨args, hSpells⟩
  rw [List.append_assoc]
  exact ⟨_, .call,
    .call hCallee.spells hParen rfl hSpells rfl, .inl hTight⟩

theorem indexExpression_begun
    (hEnd : s.final.kind = .eof)
    (hLeft : ReadUpTo asked left ls a s s₁)
    (hTight : asked.rank < s₁.peek.kind.precedence.rank)
    (hBracket : s₁.peek.kind = .lbracket)
    (h :
      indexExpression expr left s₁.advance =
        .error (.error e) s') :
    Begun (IsExpression asked) s e := by
  have hEnd₁ : s₁.final.kind = .eof := hLeft.reaches.ends hEnd
  have hPeek := hLeft.peek
  rw [hBracket] at hPeek hTight
  cases Precedence.eq_call hPeek
  have hOpening :=
    Reaches.advance_of_kind (s := s₁.advance) hEnd₁ hBracket
      (by decide)
  have hWhole :
      ∀ {us subscript b},
        Spells Eq (.expression subscript b) us →
          IsExpression asked
            (ls ++ [s₁.advance.current] ++
              (us ++ [Filler.rbracket.token])) := by
    intro us subscript b hSpells
    rw [List.append_assoc]
    exact ⟨_, .call,
      .index hLeft.spells hBracket rfl hSpells rfl,
      .inl hTight⟩
  rw [indexExpression, bind_current, bind_advance] at h
  rcases bind_failed h with h | ⟨subscript, s₂, hSubscript, h⟩
  · have hSubscript :=
      hExpr.lowest (s := s₁.advance.advance) hEnd₁ h
    refine hSubscript.within (hLeft.reaches.trans hOpening)
      [.rbracket] ?_
    rintro us ⟨v, b, hSpells⟩
    exact hWhole hSpells
  · rcases hSound.lowest (s := s₁.advance.advance) hEnd₁
        hSubscript with ⟨ts, b, hSpells, hTs, -, -⟩
    rcases bind_expect_failed h with hToken | ⟨-, h⟩
    · refine .missing
        (hLeft.reaches.trans (hOpening.trans hTs)) hToken
        [.rbracket] ?_
      have hAll := hWhole hSpells
      simpa using hAll
    · cases h

theorem continuation_begun
    (hEnd : s.final.kind = .eof)
    (hLeft : ReadUpTo asked left ls a s s₁)
    (hTight : asked.rank < s₁.peek.kind.precedence.rank)
    (h :
      continuation expr left s₁.advance =
        .error (.error e) s') :
    Begun (IsExpression asked) s e := by
  rw [continuation, bind_current] at h
  generalize hKind : s₁.advance.current.kind = kind at h
  split at h
  · exact callExpression_begun hSound hExpr hEnd hLeft hTight
      hKind h
  · exact indexExpression_begun hSound hExpr hEnd hLeft hTight
      hKind h
  · next hParen hBracket =>
      exact infixExpression_begun hExpr hEnd hLeft hTight
        (fun hEq => hParen (hKind.symm.trans hEq))
        (fun hEq => hBracket (hKind.symm.trans hEq)) h

theorem continuations_begun
    {n : Nat}
    (hEnd : s.final.kind = .eof)
    (hLeft : ReadUpTo asked left ls a s s₁)
    (h :
      continuations expr asked n left s₁ =
        .error (.error e) s') :
    Begun (IsExpression asked) s e := by
  induction n generalizing left ls a s₁ with
  | zero => cases h
  | succ n ih =>
      simp only [continuations, bind_peek] at h
      split at h
      · next hTight =>
          rw [bind_advance] at h
          rcases bind_failed h with
            h | ⟨extended, s₂, hContinuation, h⟩
          · exact continuation_begun hSound hExpr hEnd hLeft
              hTight h
          · rcases continuation_sound hSound hEnd hLeft hTight
                hContinuation with ⟨ts, b, hExtended⟩
            exact ih hExtended h
      · cases h

end

end

------------------------------------------------------------
-- Expressions and Programs
------------------------------------------------------------

/- The expressions of any number of levels. -/
theorem expression_begun
    (depth : Nat) :
    BegunAt (expression depth) := by
  induction depth with
  | zero =>
      intro asked s s' e _ _ h
      cases h
  | succ depth ih =>
      intro asked s s' e hEnd hAsked h
      have hSound : SoundAt (expression depth) :=
        expression_sound depth
      rw [expression, expressionStep] at h
      rcases bind_failed h with h | ⟨left, s₁, hFirst, h⟩
      · refine (firstPart_begun hSound ih hEnd h).imp ?_
        rintro us ⟨v, b, hSpells, hUnary⟩
        exact ⟨v, b, hSpells, .of_unary_le hAsked hUnary⟩
      · rcases firstPart_sound hSound hEnd hFirst with
          ⟨ls, a, hSpells, hLs, hUnary, hPeek⟩
        have hAdmits : asked.Admits a :=
          .of_unary_le hAsked hUnary
        rw [bind_rounds] at h
        exact continuations_begun hSound ih hEnd
          ⟨hSpells, hLs, hAdmits, hPeek⟩ h

/- A program that stops at an error has begun as another one
   does. -/
theorem program_begun
    {limit : Nat}
    (hEnd : s.final.kind = .eof)
    (h :
      program (expression limit) s =
        .error (.error e) s') :
    Begun (IsSome .program) s e := by
  rw [program, bind_rounds] at h
  have hStatements :=
    programStatements_begun (expression_sound limit)
      (expression_begun limit) hEnd (bind_pure_failed h)
  refine hStatements.imp ?_
  rintro us ⟨⟨ss, hSpells⟩, -⟩
  exact ⟨_, .program hSpells⟩

end Parse

end Monkey
