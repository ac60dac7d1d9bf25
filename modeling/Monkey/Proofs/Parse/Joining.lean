import Monkey.Proofs.Parse.Acceptance
import Monkey.Proofs.Parse.Follows
import Monkey.Proofs.Parse.Relocation
import Monkey.Proofs.Token.Scanning

/-
  Two programs as one text.

  A statement that ends on a semicolon has been read without a
  look at what comes after.  So a text that ends with one is
  read in the same way when another text is appended, within the
  same limit on nesting, and the other text is read as alone.

  Main declarations:
    * `Parse.Stops`
    * `Spells.statements_append`
    * `parseWithin_append`
-/

namespace Monkey

namespace Parse

open TokenStream (Shares)

variable {α β : Type}

------------------------------------------------------------
-- Statements That End on a Semicolon
------------------------------------------------------------

/-
  Where `x` ends on a semicolon, it has looked no further; `y`
  gets there on a stream that shares the tokens up to it.  The
  semicolon is at a distance of `d` at least.
-/
def Stops
    (d : Nat)
    (x y : Parse α) : Prop :=
  ∀ n s s',
    s.final.kind = .eof → n ≤ s'.pending.length →
      Shares n s s' →
        ∀ a t, x s = .ok a t → t.current.kind = .semicolon →
          ∃ k, d ≤ k ∧ t = s.drop k ∧
            (k < n → ∃ b, y s' = .ok b (s'.drop k))

/- What comes before may look as far as the first possible place
   of the semicolon. -/
theorem Stops.after
    {d e : Nat}
    {x y : Parse α}
    {f g : α → Parse β}
    (hFirst : ∀ c, Follows c d e Any x y)
    (hNext : ∀ a b, Stops e (f a) (g b)) :
    Stops d (x >>= f) (y >>= g) := by
  intro n s s' hEnd hLength hShares b t hRun hLast
  rcases bind_eq_ok.mp hRun with ⟨a, t₁, hx, hf⟩
  rcases hFirst n n s s' (Nat.le_refl n) hLength hShares a t₁ hx
    with ⟨k, hk, rfl, hSame⟩
  have hRest : n - k ≤ (s'.drop k).pending.length := by
    unfold TokenStream.drop
    rw [List.length_drop]
    omega
  have hThen :=
    fun c => hNext a c (n - k) (s.drop k) _ hEnd hRest
      (hShares.drop k) b t hf hLast
  by_cases hShared : k + e < n
  · rcases hSame hShared with ⟨a', hy, -⟩
    rcases hThen a' with ⟨j, hj, rfl, hOther⟩
    refine ⟨k + j, by omega, TokenStream.drop_drop .., ?_⟩
    intro hNear
    rcases hOther (by omega) with ⟨b', hg⟩
    rw [← TokenStream.drop_drop]
    exact ⟨b', bind_eq_ok.mpr ⟨a', _, hy, hg⟩⟩
  · rcases hThen a with ⟨j, hj, rfl, -⟩
    exact ⟨k + j, by omega, TokenStream.drop_drop ..,
      fun hNear => by omega⟩

/- The last token that was read is the current one, unless the
   text is over. -/
theorem current_of_reaches
    {s : TokenStream}
    {ts : List Token}
    {last : Token}
    {k : Nat}
    (hEnd : s.final.kind = .eof)
    (hTs : s.Reaches (ts ++ [last]) (s.drop k).advance)
    (hReal : (s.drop k).current.kind ≠ .eof) :
    (s.drop k).current = last := by
  have hPending := hTs.pending
  rw [← TokenStream.drop_one, TokenStream.drop_drop] at hPending
  have hNear : k < s.pending.length := by
    by_contra hFar
    refine hReal ?_
    rw [← TokenStream.ahead_zero, TokenStream.ahead_drop]
    unfold TokenStream.ahead
    rw [List.getElem?_eq_none (by omega)]
    exact hEnd
  have hLength : ts.length = k := by
    have hCount := congrArg List.length hPending
    simp only [TokenStream.drop, List.length_append,
      List.length_cons, List.length_nil, List.length_drop]
      at hCount
    omega
  rw [← TokenStream.ahead_zero, TokenStream.ahead_drop]
  unfold TokenStream.ahead
  rw [hPending, ← hLength]
  simp

section

variable {c d : Nat}

theorem current_follows :
    Follows c d d Any current current := by
  have hCurrent :
      Follows c d d Any (current >>= pure)
        (current >>= pure) :=
    .here fun _ _ _ => .done (Nat.le_refl d)
  rwa [bind_pure] at hCurrent

theorem advance_follows
    (hDistance : d ≤ 1) :
    Follows c d 0 Any advance advance := by
  have hAdvance :
      Follows c d 0 Any (advance >>= pure)
        (advance >>= pure) :=
    .pass hDistance (.done (Nat.le_refl 0))
  rwa [bind_pure] at hAdvance

theorem expect_follows
    {kind : TokenKind}
    (hDistance : d ≤ 1) :
    Follows c d 0 Any (expect kind) (expect kind) := by
  have hExpect :
      Follows c d 0 Any (expect kind >>= pure)
        (expect kind >>= pure) :=
    .want hDistance (.done (Nat.le_refl 0))
  rwa [bind_pure] at hExpect

end

section

variable {expr : Precedence → Parse Node}
variable (hSound : SoundAt expr)
variable
  (hExpr : ∀ c p, Follows c 0 1 Any (expr p) (expr p))

include hSound hExpr

/- An expression does not end on a semicolon, but one after it
   is passed. -/
theorem closing_stops
    (g g' : Node → Node) :
    Stops 0
      (do
        let value ← expr .lowest
        acceptOptional .semicolon
        return g value)
      (do
        let value ← expr .lowest
        acceptOptional .semicolon
        return g' value) := by
  intro n s s' hEnd hLength hShares a t hRun hLast
  simp only [bind_eq_ok, acceptOptional_eq_ok, pure_eq_ok]
    at hRun
  rcases hRun with ⟨value, s₁, hValue, _, _, rfl, rfl, rfl⟩
  rcases hExpr n _ n s s' (Nat.le_refl n) hLength hShares value
      s₁ hValue with ⟨k, hk, rfl, hSame⟩
  by_cases hSemicolon : (s.drop k).peek.kind = .semicolon
  · refine ⟨k + 1, by omega, ?_, ?_⟩
    · rw [if_pos hSemicolon, ← TokenStream.drop_one,
        TokenStream.drop_drop]
    · intro hShared
      rcases hSame hShared with ⟨value', hValue', -⟩
      have hAlike := hShares (k + 1) hShared
      rw [← TokenStream.ahead_drop, ← TokenStream.ahead_drop,
        TokenStream.ahead_one, TokenStream.ahead_one] at hAlike
      rw [hAlike.1] at hSemicolon
      refine ⟨g' value', ?_⟩
      simp only [bind_eq_ok, acceptOptional_eq_ok, pure_eq_ok]
      refine ⟨value', _, hValue', (), _, rfl, rfl, ?_⟩
      rw [if_pos hSemicolon, ← TokenStream.drop_one,
        TokenStream.drop_drop]
  · rw [if_neg hSemicolon] at hLast
    rcases hSound.lowest hEnd hValue with
      ⟨ts, b, hSpells, hTs, -⟩
    rcases hSpells.expression_closes with
      ⟨us, last, rfl, hOpen⟩
    have hCurrent :=
      current_of_reaches hEnd hTs (by rw [hLast]; decide)
    rw [hCurrent] at hLast
    exact absurd hLast hOpen

theorem letStatement_stops :
    Stops 0 (letStatement expr) (letStatement expr) :=
  .after (fun _ => current_follows) fun _ _ =>
    .after (fun _ => expect_follows (Nat.zero_le 1)) fun _ _ =>
      .after (fun _ => identifierHere_follows) fun _ _ =>
        .after (fun _ => expect_follows (Nat.zero_le 1))
          fun _ _ => .after
            (fun _ => advance_follows (Nat.zero_le 1))
            fun _ _ => closing_stops hSound hExpr _ _

theorem expressionStatement_stops :
    Stops 0 (expressionStatement expr)
      (expressionStatement expr) :=
  .after (fun _ => current_follows) fun _ _ =>
    closing_stops hSound hExpr _ _

/- A `return` without an expression ends on its semicolon or on
   itself. -/
theorem returnStatement_stops
    {n : Nat}
    {s s' t : TokenStream}
    {v : Node}
    (hEnd : s.final.kind = .eof)
    (hLength : n ≤ s'.pending.length)
    (hShares : Shares n s s')
    (hWord : s.current.kind = .returnWord)
    (hRun : returnStatement expr s = .ok v t)
    (hLast : t.current.kind = .semicolon) :
    ∃ k, t = s.drop k ∧
      (k < n →
        ∃ v', returnStatement expr s' = .ok v' (s'.drop k)) := by
  have hBare :
      s.current.kind ≠ .semicolon := by
    rw [hWord]
    decide
  have hNext :
      1 < n → s'.peek.kind = s.peek.kind := by
    intro hShared
    have hAlike := hShares 1 hShared
    rw [TokenStream.ahead_one, TokenStream.ahead_one] at hAlike
    exact hAlike.1.symm
  unfold returnStatement at hRun ⊢
  rw [bind_current, bind_peek] at hRun
  simp only [bind_current, bind_peek]
  by_cases hSemicolon : s.peek.kind = .semicolon
  · rw [if_pos hSemicolon, bind_advance] at hRun
    cases hRun
    refine ⟨1, s.drop_one.symm, fun hShared => ?_⟩
    rw [hNext hShared, if_pos hSemicolon, TokenStream.drop_one]
    exact ⟨_, rfl⟩
  · rw [if_neg hSemicolon] at hRun
    by_cases hBrace : s.peek.kind = .rbrace
    · rw [if_pos hBrace] at hRun
      cases hRun
      exact absurd hLast hBare
    · rw [if_neg hBrace] at hRun
      by_cases hEof : s.peek.kind = .eof
      · rw [if_pos hEof] at hRun
        cases hRun
        exact absurd hLast hBare
      · rw [if_neg hEof] at hRun
        have hStops :
            Stops 1
              (do
                advance
                let value ← expr .lowest
                acceptOptional .semicolon
                return Node.returnStmt s.current (some value))
              (do
                advance
                let value ← expr .lowest
                acceptOptional .semicolon
                return Node.returnStmt s'.current (some value)) :=
          .after (fun _ => advance_follows (Nat.le_refl 1))
            fun _ _ => closing_stops hSound hExpr _ _
        rcases hStops n s s' hEnd hLength hShares v t hRun hLast
          with ⟨k, hk, rfl, hThere⟩
        refine ⟨k, rfl, fun hShared => ?_⟩
        rw [hNext (by omega), if_neg hSemicolon, if_neg hBrace,
          if_neg hEof]
        exact hThere hShared

/- A statement told by its first token. -/
theorem statement_stops :
    Stops 0 (statement expr) (statement expr) := by
  intro n s s' hEnd hLength hShares a t hRun hLast
  unfold statement at hRun ⊢
  rw [bind_current] at hRun
  simp only [bind_current]
  have hHere :
      ∀ k < n, s'.current.kind = s.current.kind := by
    intro k hShared
    have hAlike := hShares 0 (by omega)
    rw [TokenStream.ahead_zero, TokenStream.ahead_zero]
      at hAlike
    exact hAlike.1.symm
  generalize hKind : s.current.kind = kind at hRun hHere
  split at hRun
  · rcases letStatement_stops hSound hExpr n s s' hEnd hLength
        hShares a t hRun hLast with ⟨k, hk, rfl, hThere⟩
    refine ⟨k, hk, rfl, fun hShared => ?_⟩
    rw [hHere k hShared]
    exact hThere hShared
  · rcases returnStatement_stops hSound hExpr hEnd hLength
        hShares hKind hRun hLast with ⟨k, rfl, hThere⟩
    refine ⟨k, Nat.zero_le k, rfl, fun hShared => ?_⟩
    rw [hHere k hShared]
    exact hThere hShared
  · next hLet hReturn =>
      rcases expressionStatement_stops hSound hExpr n s s' hEnd
          hLength hShares a t hRun hLast with
        ⟨k, hk, rfl, hThere⟩
      refine ⟨k, hk, rfl, fun hShared => ?_⟩
      rw [hHere k hShared]
      split
      · exact absurd rfl hLet
      · exact absurd rfl hReturn
      · exact hThere hShared

omit hSound hExpr in
/- Reading does not go past the end of a text. -/
theorem le_of_reaches
    {ts us : List Token}
    {stop : Token}
    {k : Nat}
    (hStop : stop.kind = .eof)
    (hTs :
      TokenStream.Reaches ⟨ts ++ [stop], stop⟩ us
        (TokenStream.drop ⟨ts ++ [stop], stop⟩ k)) :
    k ≤ ts.length := by
  by_contra hFar
  have hPending := hTs.pending
  simp only [TokenStream.drop] at hPending
  rw [List.drop_eq_nil_of_le (by simp; omega),
    List.append_nil] at hPending
  exact hTs.real stop (by rw [← hPending]; simp) hStop

omit hSound hExpr in
/- Pass a token after some others of a list. -/
theorem advance_drop
    {ts rest : List Token}
    {stop : Token}
    {k : Nat}
    (hNear : k < ts.length) :
    (TokenStream.drop ⟨ts ++ rest, stop⟩ k).advance =
      ⟨ts.drop (k + 1) ++ rest, stop⟩ := by
  rw [← TokenStream.drop_one, TokenStream.drop_drop]
  unfold TokenStream.drop
  rw [List.drop_append_of_le_length hNear]

omit hSound hExpr in
theorem mem_getLast?_of_drop
    {ts : List Token}
    {k : Nat}
    {t : Token}
    (hLast : t ∈ (ts.drop k).getLast?) :
    t ∈ ts.getLast? := by
  rw [List.getLast?_drop] at hLast
  split at hLast
  · cases hLast
  · exact hLast

omit hSound hExpr in
/- Streams share the tokens that are alike. -/
theorem shares_of_alike
    {ts us rest rest' : List Token}
    {stop stop' : Token}
    (hAlike : List.Forall₂ Token.Alike ts us) :
    Shares ts.length ⟨ts ++ rest, stop⟩
      ⟨us ++ rest', stop'⟩ := by
  intro k hk
  have hk' : k < us.length := hAlike.length_eq ▸ hk
  unfold TokenStream.ahead
  simp only [List.getElem?_append_left hk,
    List.getElem?_append_left hk',
    List.getElem?_eq_getElem hk, List.getElem?_eq_getElem hk',
    Option.getD_some]
  exact hAlike.get hk hk'

/-
  A statement of a text that ends with a semicolon is read again
  where anything follows.
-/
theorem statement_joined
    {ts us : List Token}
    {stop : Token}
    {v : Node}
    {t : TokenStream}
    (rest : List Token)
    (stop' : Token)
    (hStop : stop.kind = .eof)
    (hLast : ∀ u ∈ ts.getLast?, u.kind = .semicolon)
    (hAlike : List.Forall₂ Token.Alike ts us)
    (hRun :
      statement expr ⟨ts ++ [stop], stop⟩ = .ok v t) :
    ∃ k < ts.length,
      t = TokenStream.drop ⟨ts ++ [stop], stop⟩ k ∧
        ∃ v',
          statement expr ⟨us ++ rest, stop'⟩ =
            .ok v' (TokenStream.drop ⟨us ++ rest, stop'⟩ k) := by
  have hShares :
      Shares ts.length ⟨ts ++ [stop], stop⟩
        ⟨us ++ rest, stop'⟩ :=
    shares_of_alike hAlike
  have hLength : ts.length ≤ (us ++ rest).length := by
    rw [List.length_append, hAlike.length_eq]
    omega
  rcases statement_follows hExpr ts.length _ _ (Nat.le_refl _)
      hLength hShares v t hRun with ⟨k, -, rfl, hSame⟩
  have hNear : k < ts.length := by
    rcases statement_sound hSound hStop hRun with
      ⟨xs, -, hEnds⟩
    have hAdvance :
        (TokenStream.drop ⟨ts ++ [stop], stop⟩ k).advance =
          TokenStream.drop ⟨ts ++ [stop], stop⟩ (k + 1) := by
      rw [← TokenStream.drop_one, TokenStream.drop_drop]
    rcases hEnds with ⟨semicolon, -, hTs⟩ | ⟨hTs, -⟩
    · rw [hAdvance] at hTs
      exact le_of_reaches hStop hTs
    · rw [hAdvance] at hTs
      exact le_of_reaches hStop hTs
  refine ⟨k, hNear, rfl, ?_⟩
  by_cases hBefore : k + 1 < ts.length
  · rcases hSame hBefore with ⟨v', hThere, -⟩
    exact ⟨v', hThere⟩
  · -- the statement ends on the last token
    have hCurrent :
        (TokenStream.drop ⟨ts ++ [stop], stop⟩
          k).current.kind = .semicolon := by
      refine hLast _ ?_
      rw [← TokenStream.ahead_zero, TokenStream.ahead_drop]
      have hIndex : ts.length - 1 = k := by omega
      unfold TokenStream.ahead
      simp [List.getLast?_eq_getElem?, hIndex,
        List.getElem?_append_left hNear,
        List.getElem?_eq_getElem hNear]
    rcases statement_stops hSound hExpr ts.length _ _ hStop
        hLength hShares v _ hRun hCurrent with
      ⟨j, -, hDrop, hThere⟩
    have hSamePlace : j = k := by
      have hCount :=
        congrArg (fun s => s.pending.length) hDrop
      simp only [TokenStream.drop, List.length_drop,
        List.length_append, List.length_singleton] at hCount
      omega
    rw [hSamePlace] at hThere
    exact hThere hNear

/-
  A list of statements that ends with a semicolon is read again
  where others follow that can be read.
-/
theorem programStatements_joined
    {n n' : Nat}
    {ts us rest : List Token}
    {stop stop' : Token}
    {ss : List Node}
    {t : TokenStream}
    (hStop : stop.kind = .eof)
    (hReal : ∀ u ∈ ts, u.kind ≠ .eof)
    (hLast : ∀ u ∈ ts.getLast?, u.kind = .semicolon)
    (hAlike : List.Forall₂ Token.Alike ts us)
    (hRun :
      programStatements expr n ⟨ts ++ [stop], stop⟩ =
        .ok ss t)
    (hRest :
      ∀ m, rest.length < m →
        ∃ rs t', programStatements expr m ⟨rest, stop'⟩ =
          .ok rs t')
    (hEnough : (us ++ rest).length < n') :
    ∃ rs t', programStatements expr n' ⟨us ++ rest, stop'⟩ =
      .ok rs t' := by
  induction n generalizing ts us ss n' with
  | zero => simp [programStatements] at hRun
  | succ n ih =>
      cases hTokens : ts with
      | nil =>
          rw [hTokens] at hAlike
          cases hAlike
          exact hRest n' hEnough
      | cons u more =>
          obtain ⟨m, rfl⟩ : ∃ m, n' = m + 1 :=
            ⟨n' - 1, by omega⟩
          obtain ⟨u', more', rfl, hFirst, -⟩ :=
            exists_cons_of_alike (hTokens ▸ hAlike)
          have hStart : u.kind ≠ .eof :=
            hReal u (by rw [hTokens]; exact List.mem_cons_self)
          have hStart' : u'.kind ≠ .eof := hFirst.1 ▸ hStart
          have hHere :
              TokenStream.current ⟨ts ++ [stop], stop⟩ = u := by
            rw [hTokens]
            rfl
          simp only [programStatements, bind_eq_ok,
            current_eq_ok, hHere] at hRun
          rcases hRun with ⟨_, _, ⟨rfl, rfl⟩, hRun⟩
          rw [if_neg hStart] at hRun
          simp only [bind_eq_ok, advance_eq_ok, pure_eq_ok]
            at hRun
          rcases hRun with
            ⟨v, s₁, hStatement, _, _, rfl, others, _, hOthers,
              rfl, rfl⟩
          rcases statement_joined hSound hExpr rest stop' hStop
              hLast hAlike hStatement with
            ⟨k, hk, rfl, v', hThere⟩
          have hk' : k < (u' :: more').length :=
            hAlike.length_eq ▸ hk
          rw [advance_drop hk] at hOthers
          have hFewer :
              ((u' :: more').drop (k + 1) ++ rest).length <
                m := by
            simp only [List.length_append, List.length_cons,
              List.length_drop] at hEnough ⊢
            omega
          rcases ih
              (fun w hw => hReal w (List.mem_of_mem_drop hw))
              (fun w hw => hLast w (mem_getLast?_of_drop hw))
              (List.forall₂_drop (k + 1) hAlike) hOthers
              hFewer with ⟨rs, t', hMore⟩
          refine ⟨v' :: rs, t', ?_⟩
          simp only [programStatements, bind_eq_ok,
            current_eq_ok]
          refine ⟨u', _, ⟨rfl, rfl⟩, ?_⟩
          rw [if_neg hStart']
          simp only [bind_eq_ok, advance_eq_ok, pure_eq_ok]
          refine ⟨v', _, hThere, (), _, rfl, rs, t', ?_, rfl,
            rfl⟩
          rw [advance_drop hk']
          exact hMore

/- Statements up to the end of a text are read again by any
   number of rounds that is enough. -/
theorem programStatements_again
    {n m : Nat}
    {ts us : List Token}
    {stop stop' : Token}
    {ss : List Node}
    {t : TokenStream}
    (hStop : stop.kind = .eof)
    (hAlike : List.Forall₂ Token.Alike (ts ++ [stop]) us)
    (hRun :
      programStatements expr n ⟨ts ++ [stop], stop⟩ =
        .ok ss t)
    (hEnough : us.length < m) :
    ∃ rs t', programStatements expr m ⟨us, stop'⟩ =
      .ok rs t' := by
  have hLength := hAlike.length_eq
  have hShares :
      Shares (ts ++ [stop]).length ⟨ts ++ [stop], stop⟩
        ⟨us, stop'⟩ := by
    have hAll :
        Shares (ts ++ [stop]).length
          ⟨(ts ++ [stop]) ++ [], stop⟩ ⟨us ++ [], stop'⟩ :=
      shares_of_alike hAlike
    rwa [List.append_nil, List.append_nil] at hAll
  rcases programStatements_follows hExpr (hLength ▸ hEnough) n
      _ _ _ (Nat.le_refl _) (Nat.le_of_eq hLength) hShares ss t
      hRun with ⟨k, -, rfl, hSame⟩
  rcases programStatements_sound hSound hStop hRun with
    ⟨xs, -, hTs, -⟩
  have hNear := le_of_reaches hStop hTs
  rcases hSame (by simp; omega) with ⟨rs, hThere, -⟩
  exact ⟨rs, _, hThere⟩

end

end Parse

------------------------------------------------------------
-- Statements One After Another
------------------------------------------------------------

/- Statements that end with a semicolon, and then others. -/
theorem Spells.statements_append
    {own : Token → Token → Prop}
    {ss ss' : List Node}
    {ts us : List Token}
    (h : Spells own (.statements ss) ts)
    (hLast : ∀ t ∈ ts.getLast?, t.kind = .semicolon)
    (hMore : Spells own (.statements ss') us) :
    Spells own (.statements (ss ++ ss')) (ts ++ us) := by
  induction ss generalizing ts with
  | nil =>
      cases h
      exact hMore
  | cons s ss ih =>
      cases h with
      | closedStatement hFirst hSemicolon hOthers =>
          rw [List.append_assoc, List.cons_append]
          refine .closedStatement hFirst hSemicolon
            (ih hOthers fun t ht => hLast t ?_)
          exact List.mem_getLast?_append_of_mem_getLast?
            (List.mem_getLast?_cons ht)
      | @openStatement _ _ ts vs hFirst hEnd hOthers =>
          rw [List.append_assoc]
          have hNonempty : vs ≠ [] := by
            rintro rfl
            rcases hFirst.statement_closes with
              ⟨xs, last, rfl, hOpen⟩
            exact hOpen (hLast last (by simp))
          refine .openStatement hFirst ⟨?_, ?_⟩
            (ih hOthers fun t ht => hLast t ?_)
          · intro hReturn
            exact absurd (hEnd.1 hReturn) hNonempty
          · rw [List.head?_append_of_ne_nil _ hNonempty]
            exact hEnd.2
          · exact List.mem_getLast?_append_of_mem_getLast? ht

------------------------------------------------------------
-- Texts
------------------------------------------------------------

/- A text whose last token is a semicolon. -/
def EndsClosed (source : String) : Prop :=
  ∃ ts semicolon,
    bodyTokens source = ts ++ [semicolon] ∧
      semicolon.kind = .semicolon

namespace EndsClosed

variable {source : String}

theorem last
    (h : EndsClosed source) :
    ∀ t ∈ (bodyTokens source).getLast?, t.kind = .semicolon := by
  rcases h with ⟨ts, semicolon, hTokens, hSemicolon⟩
  rw [hTokens]
  intro t hMem
  simp only [List.getLast?_append, List.getLast?_singleton,
    Option.some_or, Option.mem_def, Option.some.injEq] at hMem
  exact hMem ▸ hSemicolon

theorem tokens
    (h : EndsClosed source)
    (more : String) :
    List.Forall₂ Token.Alike
      (Monkey.bodyTokens source ++ Monkey.tokens more)
      (Monkey.tokens (source ++ more)) := by
  rcases h with ⟨ts, semicolon, hTokens, hSemicolon⟩
  exact tokens_append hTokens hSemicolon more

theorem bodyTokens
    (h : EndsClosed source)
    (more : String) :
    List.Forall₂ Token.Alike
      (Monkey.bodyTokens source ++ Monkey.bodyTokens more)
      (Monkey.bodyTokens (source ++ more)) := by
  rcases h with ⟨ts, semicolon, hTokens, hSemicolon⟩
  exact bodyTokens_append hTokens hSemicolon more

end EndsClosed

/- What is accepted is a program. -/
theorem exists_statements_of_parseWithin
    {limit : Nat}
    {source : String}
    {p : Node}
    (h : parseWithin limit source = .ok p) :
    ∃ ss,
      p = .program ss ∧
        Spells Eq (.statements ss) (bodyTokens source) := by
  cases spells_of_parseWithin h with
  | program hStatements => exact ⟨_, rfl, hStatements⟩

/- Where a text that ends with a semicolon and another one are
   accepted, both together are, within the same limit. -/
theorem exists_parseWithin_append
    {limit : Nat}
    {source more : String}
    {ss ss' : List Node}
    (h : parseWithin limit source = .ok (.program ss))
    (hClosed : EndsClosed source)
    (hMore : parseWithin limit more = .ok (.program ss')) :
    ∃ rs,
      parseWithin limit (source ++ more) =
        .ok (.program rs) := by
  rcases parseWithin_eq_ok.mp h with ⟨t, hRun⟩
  rcases parseWithin_eq_ok.mp hMore with ⟨t', hRun'⟩
  rcases TokenStream.ofText_eq source with
    ⟨stop, hStream, hStop, hReal⟩
  rcases TokenStream.ofText_eq more with
    ⟨stop', hStream', hStop', -⟩
  rw [hStream] at hRun
  rw [hStream'] at hRun'
  have hMoreTokens : tokens more = bodyTokens more ++ [stop'] :=
    congrArg TokenStream.pending hStream'
  rcases exists_append_of_alike (hClosed.tokens more) with
    ⟨us, vs, hJoined, hFirst, hSecond⟩
  rw [hMoreTokens] at hSecond
  have hFollows :
      ∀ c p, Parse.Follows c 0 1 Parse.Any
        (Parse.expression limit p) (Parse.expression limit p) :=
    fun c p => Parse.expression_follows limit p
  have hEnough :
      (us ++ vs).length < (tokens (source ++ more)).length + 1 :=
    hJoined ▸ Nat.lt_succ_self _
  obtain ⟨rs, t'', hBoth⟩ :
      ∃ rs t'',
        Parse.programStatements (Parse.expression limit)
            ((tokens (source ++ more)).length + 1)
            ⟨us ++ vs,
              (TokenStream.ofText (source ++ more)).final⟩ =
          .ok rs t'' :=
    Parse.programStatements_joined
      (Parse.expression_sound limit) hFollows hStop hReal
      hClosed.last hFirst hRun
      (fun m hm => Parse.programStatements_again
        (Parse.expression_sound limit) hFollows hStop' hSecond
        hRun' hm)
      hEnough
  refine ⟨rs, parseWithin_eq_ok.mpr ⟨t'', ?_⟩⟩
  rw [← hJoined] at hBoth
  exact hBoth

/-
  The statements of both texts together are those of the first
  and then those of the second, but for the places of their
  tokens.
-/
theorem parseWithin_append
    {limit : Nat}
    {source more : String}
    {ss ss' : List Node}
    (h : parseWithin limit source = .ok (.program ss))
    (hClosed : EndsClosed source)
    (hMore : parseWithin limit more = .ok (.program ss')) :
    ∃ rs,
      parseWithin limit (source ++ more) =
          .ok (.program rs) ∧
        rs.map Node.essence = (ss ++ ss').map Node.essence := by
  rcases exists_parseWithin_append h hClosed hMore with
    ⟨rs, hJoined⟩
  refine ⟨rs, hJoined, ?_⟩
  rcases exists_statements_of_parseWithin h with
    ⟨_, hSame, hFirst⟩
  cases hSame
  rcases exists_statements_of_parseWithin hMore with
    ⟨_, hSame, hSecond⟩
  cases hSame
  have hAll := hFirst.statements_append hClosed.last hSecond
  rcases (Spells.program hAll).exists_program_of_alike
      (hClosed.bodyTokens more) with
    ⟨p, hSpells, hEssence⟩
  have hSameTree : parseWithin limit (source ++ more) = .ok p :=
    parseWithin_eq_of_spells hSpells
      (by rw [hJoined]; exact nofun)
  rw [hJoined] at hSameTree
  cases hSameTree
  rw [Node.essence_program, Node.essence_program] at hEssence
  exact Node.program.inj hEssence

end Monkey
