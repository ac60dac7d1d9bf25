import Monkey.Proofs.Parse.Steps
import Monkey.Proofs.Token.Respelling

/-
  What a parser has looked at.

  Every rule looks at the current token and at the one after it,
  and never goes back.  So what it does up to a token depends
  only on the tokens up to there.  In particular, where it stops
  at a token with an error, it does not get through on another
  stream that is like the first one up to this token.

  `Local d d'` says so of two computations: `d` is the distance
  of the last token that was looked at before, and `d'` the one
  afterwards, both counted from the current token.

  Main declarations:
    * `TokenStream.Shares`
    * `Parse.Local`
    * `Parse.program_local`
-/

namespace Monkey

------------------------------------------------------------
-- Tokens Ahead
------------------------------------------------------------

namespace TokenStream

/- The token at a distance from the current one.  The last one
   shows for ever. -/
def ahead
    (s : TokenStream)
    (k : Nat) :
    Token :=
  (s.pending[k]?).getD s.final

/- Pass a number of tokens. -/
def drop
    (s : TokenStream)
    (k : Nat) :
    TokenStream :=
  { s with pending := s.pending.drop k }

theorem ahead_zero
    (s : TokenStream) :
    s.ahead 0 = s.current := by
  unfold ahead current
  cases s.pending <;> rfl

theorem ahead_one
    (s : TokenStream) :
    s.ahead 1 = s.peek := by
  unfold ahead peek
  rcases s.pending with _ | ⟨t, _ | ⟨u, rest⟩⟩ <;> rfl

theorem drop_one
    (s : TokenStream) :
    s.drop 1 = s.advance := by
  unfold drop advance
  rw [List.drop_one]

theorem drop_drop
    (s : TokenStream)
    (k j : Nat) :
    (s.drop k).drop j = s.drop (k + j) := by
  unfold drop
  rw [List.drop_drop]

theorem ahead_drop
    (s : TokenStream)
    (k j : Nat) :
    (s.drop k).ahead j = s.ahead (k + j) := by
  unfold ahead drop
  rw [List.getElem?_drop]

/- The first tokens of two streams are alike. -/
def Shares
    (n : Nat)
    (s s' : TokenStream) : Prop :=
  ∀ k < n, (s.ahead k).Alike (s'.ahead k)

theorem Shares.drop
    {n : Nat}
    {s s' : TokenStream}
    (h : Shares n s s')
    (k : Nat) :
    Shares (n - k) (s.drop k) (s'.drop k) := by
  intro j hj
  rw [ahead_drop, ahead_drop]
  exact h (k + j) (by omega)

theorem shares_zero
    (s s' : TokenStream) :
    Shares 0 s s' :=
  fun _ h => absurd h (Nat.not_lt_zero _)

end TokenStream

namespace Parse

open TokenStream (Shares)

------------------------------------------------------------
-- Comparing Results
------------------------------------------------------------

variable {α β : Type}

/-
  What a result on a stream tells about one on another stream
  that shares `n` tokens with it.  An error is at a token that
  had not been passed; if that token is shared, the other result
  is no success.  After a success, the other result is the same
  or no success, as long as all tokens that were looked at are
  shared.
-/
def Compares
    (d d' n : Nat)
    (rel : α → α → Prop)
    (s s' : TokenStream) :
    EStateM.Result ParseFailure TokenStream α →
      EStateM.Result ParseFailure TokenStream α → Prop
  | .error .tooDeep _, _ => True
  | .error (.error e) _, r =>
      ∃ k, d ≤ k ∧ s.ahead k = e.token ∧
        (k < n → ∀ b t, r ≠ .ok b t)
  | .ok a t, r =>
      ∃ k, d ≤ k + d' ∧ t = s.drop k ∧
        (k + d' < n →
          ∀ b t', r = .ok b t' → t' = s'.drop k ∧ rel a b)

/- Two computations do the same as far as they have looked. -/
def Local
    (d d' : Nat)
    (rel : α → α → Prop)
    (x y : Parse α) : Prop :=
  ∀ n s s', Shares n s s' →
    Compares d d' n rel s s' (x s) (y s')

/- Results about which nothing needs to be known. -/
def Any (_ _ : α) : Prop :=
  True

section

variable {d d' e n : Nat}
variable {rel : α → α → Prop}
variable {s s' : TokenStream}

/- A comparison after some tokens, as one from the start. -/
theorem Compares.shift
    {r r' : EStateM.Result ParseFailure TokenStream α}
    {k : Nat}
    (h :
      Compares e d' (n - k) rel (s.drop k) (s'.drop k) r r')
    (hStart : d ≤ k + e) :
    Compares d d' n rel s s' r r' := by
  cases r with
  | error f t =>
      cases f with
      | tooDeep => trivial
      | error f =>
          rcases h with ⟨j, hj, hToken, hNot⟩
          rw [TokenStream.ahead_drop] at hToken
          exact ⟨k + j, by omega, hToken,
            fun hShared => hNot (by omega)⟩
  | ok a t =>
      rcases h with ⟨j, hj, rfl, hSame⟩
      refine ⟨k + j, by omega, TokenStream.drop_drop .., ?_⟩
      intro hShared b t' hOther
      rw [← TokenStream.drop_drop]
      exact hSame (by omega) b t' hOther

/- Where the tokens looked at are not shared, or the other
   result is no success, a comparison with anything will do. -/
theorem Compares.beyond
    {r r' r'' : EStateM.Result ParseFailure TokenStream α}
    {u : TokenStream}
    {m k : Nat}
    (h : Compares e d' m rel (s.drop k) u r r'')
    (hStart : d ≤ k + e)
    (hNot : k + e < n → ∀ b t, r' ≠ .ok b t) :
    Compares d d' n rel s s' r r' := by
  cases r with
  | error f t =>
      cases f with
      | tooDeep => trivial
      | error f =>
          rcases h with ⟨j, hj, hToken, -⟩
          rw [TokenStream.ahead_drop] at hToken
          exact ⟨k + j, by omega, hToken,
            fun hShared => hNot (by omega)⟩
  | ok a t =>
      rcases h with ⟨j, hj, rfl, -⟩
      refine ⟨k + j, by omega, TokenStream.drop_drop .., ?_⟩
      intro hShared b t' hOther
      exact absurd hOther (hNot (by omega) b t')

end

namespace Local

variable {d d' e : Nat}
variable {rel : α → α → Prop}
variable {rel' : β → β → Prop}
variable {x y : Parse α}

------------------------------------------------------------
-- Combining Computations
------------------------------------------------------------

theorem pure
    {a b : α}
    (hDistance : d ≤ d')
    (h : rel a b) :
    Local d d' rel (Pure.pure a) (Pure.pure b) := by
  intro n s s' _
  refine ⟨0, by omega, rfl, fun _ b' t' hOther => ?_⟩
  cases hOther
  exact ⟨rfl, h⟩

theorem tooDeep
    (y : Parse α) :
    Local d d' rel (throw .tooDeep) y :=
  fun _ _ _ _ => trivial

/- One computation after another. -/
theorem bind
    {f g : α → Parse β}
    (hFirst : Local d e rel x y)
    (hRefl : ∀ a, rel a a)
    (hNext :
      ∀ a b, rel a b → Local e d' rel' (f a) (g b)) :
    Local d d' rel' (x >>= f) (y >>= g) := by
  intro n s s' hShares
  have hCompared := hFirst n s s' hShares
  rw [bind_apply, bind_apply]
  cases hx : x s with
  | error failure t =>
      rw [hx] at hCompared
      cases failure with
      | tooDeep => trivial
      | error failure =>
          rcases hCompared with ⟨k, hk, hToken, hNot⟩
          refine ⟨k, hk, hToken, fun hShared b t' => ?_⟩
          cases hy : y s' with
          | error => exact nofun
          | ok b' u => exact absurd hy (hNot hShared b' u)
  | ok a t =>
      rw [hx] at hCompared
      rcases hCompared with ⟨k, hk, rfl, hSame⟩
      have hAlone :=
        hNext a a (hRefl a) 0 (s.drop k) (s.drop k)
          (TokenStream.shares_zero _ _)
      cases hy : y s' with
      | error failure u =>
          exact hAlone.beyond hk fun _ => nofun
      | ok b u =>
          by_cases hShared : k + e < n
          · rcases hSame hShared b u hy with ⟨rfl, hRel⟩
            exact (hNext a b hRel (n - k) _ _
              (hShares.drop k)).shift hk
          · exact hAlone.beyond hk fun h => absurd h hShared

/- A computation after one whose result does not matter. -/
theorem andThen
    {f g : α → Parse β}
    (hFirst : Local d e Any x y)
    (hNext : ∀ a b, Local e d' rel' (f a) (g b)) :
    Local d d' rel' (x >>= f) (y >>= g) :=
  hFirst.bind (fun _ => trivial) fun a b _ => hNext a b

/- Another computation that never succeeds compares with
   everything. -/
theorem of_never
    {y' : Parse α}
    (h : Local d d' rel x y)
    (hNever : ∀ s b t, y' s ≠ .ok b t) :
    Local d d' rel x y' := by
  intro n s s' _
  have hAlone :=
    h 0 (s.drop 0) s (TokenStream.shares_zero _ _)
  exact hAlone.beyond (Nat.le_add_left _ _) fun _ =>
    hNever s'

/- What has been looked at before may be left out. -/
theorem of_le
    (h : Local e d' rel x y)
    (hDistance : d ≤ e) :
    Local d d' rel x y := by
  intro n s s' hShares
  exact (h n s s' hShares).shift (Nat.le_trans hDistance
    (Nat.le_add_left e 0))

theorem ite
    {c c' : Prop}
    [Decidable c]
    [Decidable c']
    {z w : Parse α}
    (hCondition : c ↔ c')
    (hThen : Local d d' rel x y)
    (hElse : Local d d' rel z w) :
    Local d d' rel (if c then x else z)
      (if c' then y else w) := by
  by_cases hc : c
  · rw [if_pos hc, if_pos (hCondition.mp hc)]
    exact hThen
  · rw [if_neg hc, if_neg fun h => hc (hCondition.mpr h)]
    exact hElse

------------------------------------------------------------
-- Steps
------------------------------------------------------------

theorem current
    (hDistance : d ≤ d') :
    Local d d' Token.Alike current current := by
  intro n s s' hShares
  refine ⟨0, by omega, rfl, fun hShared b t' hOther => ?_⟩
  cases hOther
  have hAlike := hShares 0 (by omega)
  rw [TokenStream.ahead_zero, TokenStream.ahead_zero] at hAlike
  exact ⟨rfl, hAlike⟩

theorem peek
    (hDistance : d ≤ d')
    (hNext : 1 ≤ d') :
    Local d d' Token.Alike peek peek := by
  intro n s s' hShares
  refine ⟨0, by omega, rfl, fun hShared b t' hOther => ?_⟩
  cases hOther
  have hAlike := hShares 1 (by omega)
  rw [TokenStream.ahead_one, TokenStream.ahead_one] at hAlike
  exact ⟨rfl, hAlike⟩

theorem advance
    (hDistance : d ≤ d' + 1) :
    Local d d' Any advance advance := by
  intro n s s' _
  refine ⟨1, by omega, s.drop_one.symm, fun _ b t' hOther => ?_⟩
  cases hOther
  exact ⟨s'.drop_one.symm, trivial⟩

theorem rounds
    (hDistance : d ≤ d') :
    Local d d' Any rounds rounds := by
  intro n s s' _
  refine ⟨0, by omega, rfl, fun _ b t' hOther => ?_⟩
  cases hOther
  exact ⟨rfl, trivial⟩

/- Go on with the current token, at which an error may be. -/
theorem of_current
    {f g : Token → Parse α}
    (h :
      ∀ n s s', Shares n s s' → s.current.Alike s'.current →
        Compares 0 d' n rel s s' (f s.current s)
          (g s'.current s')) :
    Local 0 d' rel (Parse.current >>= f)
      (Parse.current >>= g) := by
  intro n s s' hShares
  change Compares 0 d' n rel s s' (f s.current s)
    (g s'.current s')
  cases n with
  | zero =>
      have hAlone :=
        h 0 (s.drop 0) s (TokenStream.shares_zero _ _)
          (Token.Alike.refl _)
      exact hAlone.beyond (Nat.zero_le _) fun hShared =>
        absurd hShared (Nat.not_lt_zero _)
  | succ n =>
      have hAlike := hShares 0 (Nat.succ_pos n)
      rw [TokenStream.ahead_zero, TokenStream.ahead_zero]
        at hAlike
      exact h (n + 1) s s' hShares hAlike

end Local

/- An error at the current token. -/
theorem compares_fail
    {d' n : Nat}
    {rel : α → α → Prop}
    {s s' : TokenStream}
    {cause cause' : ParseError.Cause}
    {t : Token} :
    Compares 0 d' n rel s s' (fail cause s.current s)
      (fail cause' t s') :=
  ⟨0, Nat.le_refl _, s.ahead_zero, fun _ => nofun⟩

theorem expect_local
    {d d' : Nat}
    (hDistance : d ≤ 1)
    (kind : TokenKind) :
    Local d d' Any (expect kind) (expect kind) := by
  intro n s s' hShares
  by_cases hKind : s.peek.kind = kind
  · have hRun : expect kind s = .ok () s.advance :=
      expect_eq_ok.mpr ⟨hKind, rfl⟩
    rw [hRun]
    refine ⟨1, by omega, s.drop_one.symm, ?_⟩
    intro _ b t' hOther
    rw [expect_eq_ok] at hOther
    exact ⟨by rw [← hOther.2, TokenStream.drop_one], trivial⟩
  · have hRun :
        expect kind s =
          .error
            (.error
              { cause := .unexpected kind s.peek.kind
                token := s.peek }) s := by
      change (if s.peek.kind = kind then _ else _ : Parse Unit) s
        = _
      rw [if_neg hKind]
      rfl
    rw [hRun]
    refine ⟨1, hDistance, s.ahead_one, ?_⟩
    intro hShared b t' hOther
    have hAlike := hShares 1 hShared
    rw [TokenStream.ahead_one, TokenStream.ahead_one] at hAlike
    rw [expect_eq_ok, ← hAlike.1] at hOther
    exact hKind hOther.1

namespace Local

variable {d d' : Nat}
variable {rel : β → β → Prop}

/- Go on after looking at the next token. -/
theorem look
    {f g : Token → Parse β}
    (hDistance : d ≤ 1)
    (hNext :
      ∀ t u, t.Alike u → Local 1 d' rel (f t) (g u)) :
    Local d d' rel (Parse.peek >>= f) (Parse.peek >>= g) :=
  (Local.peek hDistance (Nat.le_refl 1)).bind .refl hNext

/- Go on after passing a token. -/
theorem pass
    {f g : Unit → Parse β}
    (hDistance : d ≤ 1)
    (hNext : ∀ a b, Local 0 d' rel (f a) (g b)) :
    Local d d' rel (Parse.advance >>= f)
      (Parse.advance >>= g) :=
  (Local.advance hDistance).andThen hNext

/- Go on after a token of a certain kind. -/
theorem want
    {kind : TokenKind}
    {f g : Unit → Parse β}
    (hDistance : d ≤ 1)
    (hNext : ∀ a b, Local 0 d' rel (f a) (g b)) :
    Local d d' rel (expect kind >>= f) (expect kind >>= g) :=
  (expect_local hDistance kind).andThen hNext

/- Go on with the current token. -/
theorem here
    {f g : Token → Parse β}
    (hNext :
      ∀ t u, t.Alike u → Local d d' rel (f t) (g u)) :
    Local d d' rel (Parse.current >>= f)
      (Parse.current >>= g) :=
  (Local.current (Nat.le_refl d)).bind .refl hNext

/- Go on with some number of rounds. -/
theorem count
    {f g : Nat → Parse β}
    (hNext : ∀ n n', Local d d' rel (f n) (g n')) :
    Local d d' rel (Parse.rounds >>= f)
      (Parse.rounds >>= g) :=
  (Local.rounds (Nat.le_refl d)).andThen hNext

/- A result about which nothing needs to be known. -/
theorem done
    {a b : β}
    (hDistance : d ≤ d') :
    Local d d' Any (Pure.pure a) (Pure.pure b) :=
  .pure hDistance trivial

/- A loop with an argument compares with another one for any
   numbers of rounds if one round does. -/
theorem of_rounds
    {ι : Type}
    {f g : Nat → ι → Parse β}
    (hStart : ∀ i, f 0 i = throw .tooDeep)
    (hStart' : ∀ i, g 0 i = throw .tooDeep)
    (hRound :
      ∀ n n',
        (∀ i j, Local d d' rel (f n i) (g n' j)) →
          ∀ i j,
            Local d d' rel (f (n + 1) i) (g (n' + 1) j))
    (n n' : Nat)
    (i j : ι) :
    Local d d' rel (f n i) (g n' j) := by
  induction n generalizing n' i j with
  | zero =>
      rw [hStart]
      exact .tooDeep _
  | succ n ih =>
      cases n' with
      | succ n' => exact hRound n n' (ih n') i j
      | zero =>
          refine (hRound n 0 (ih 0) i j).of_never fun s b t => ?_
          rw [hStart']
          exact nofun

/- The same for a loop without an argument. -/
theorem of_round
    {loop loop' : Nat → Parse β}
    (hStart : loop 0 = throw .tooDeep)
    (hStart' : loop' 0 = throw .tooDeep)
    (hRound :
      ∀ n n', Local d d' rel (loop n) (loop' n') →
        Local d d' rel (loop (n + 1)) (loop' (n' + 1)))
    (n n' : Nat) :
    Local d d' rel (loop n) (loop' n') :=
  of_rounds (f := fun n (_ : Unit) => loop n)
    (g := fun n (_ : Unit) => loop' n) (fun _ => hStart)
    (fun _ => hStart')
    (fun n n' ih _ _ => hRound n n' (ih () ())) n n' () ()

end Local

theorem acceptOptional_local
    (kind : TokenKind) :
    Local 1 1 Any (acceptOptional kind)
      (acceptOptional kind) :=
  .look (by decide) fun t u hAlike =>
    .ite (by rw [hAlike.1]) (.advance (by decide))
      (.done (by decide))

theorem atPairsEnd_local
    {d : Nat}
    (hDistance : d ≤ 1) :
    Local d 1 Eq atPairsEnd atPairsEnd :=
  .look hDistance fun t u hAlike =>
    .pure (by decide) (by rw [hAlike.1])

------------------------------------------------------------
-- Names
------------------------------------------------------------

theorem identifierHere_local
    {d : Nat} :
    Local d d Any identifierHere identifierHere :=
  .here fun _ _ _ => .done (Nat.le_refl d)

theorem moreParameters_local
    (n n' : Nat) :
    Local 0 1 Any (moreParameters n) (moreParameters n') := by
  refine .of_round rfl rfl (fun n n' ih => ?_) n n'
  exact .look (by decide) fun t u hAlike =>
    .ite (by rw [hAlike.1])
      (.pass (by decide) fun _ _ => .want (by decide) fun _ _ =>
        identifierHere_local.andThen fun _ _ =>
          ih.andThen fun _ _ => .done (by decide))
      (.done (by decide))

theorem parameters_local :
    Local 0 0 Any parameters parameters :=
  .look (by decide) fun t u hAlike =>
    .ite (by rw [hAlike.1])
      (.pass (by decide) fun _ _ => .done (by decide))
      (.want (by decide) fun _ _ =>
        identifierHere_local.andThen fun _ _ =>
          .count fun n n' =>
            (moreParameters_local n n').andThen fun _ _ =>
              .want (by decide) fun _ _ => .done (by decide))

------------------------------------------------------------
-- Statements
------------------------------------------------------------

variable {expr : Precedence → Parse Node}
variable (hExpr : ∀ p, Local 0 1 Any (expr p) (expr p))

include hExpr

theorem letStatement_local :
    Local 0 1 Any (letStatement expr) (letStatement expr) :=
  .here fun _ _ _ => .want (by decide) fun _ _ =>
    identifierHere_local.andThen fun _ _ =>
      .want (by decide) fun _ _ => .pass (by decide) fun _ _ =>
        (hExpr _).andThen fun _ _ =>
          (acceptOptional_local _).andThen fun _ _ =>
            .done (by decide)

theorem returnStatement_local :
    Local 0 1 Any (returnStatement expr)
      (returnStatement expr) := by
  refine .here fun _ _ _ => .look (by decide)
    fun t u hAlike => ?_
  rw [hAlike.1]
  refine .ite .rfl ?_ (.ite .rfl ?_ (.ite .rfl ?_ ?_))
  · exact (Local.advance (by decide)).andThen fun _ _ =>
      .done (Nat.le_refl 1)
  · exact .done (by decide)
  · exact .done (by decide)
  · exact .pass (by decide) fun _ _ =>
      (hExpr _).andThen fun _ _ =>
        (acceptOptional_local _).andThen fun _ _ =>
          .done (by decide)

theorem statement_local :
    Local 0 1 Any (statement expr) (statement expr) := by
  refine .here fun t u hAlike => ?_
  rw [hAlike.1]
  split
  · exact letStatement_local hExpr
  · exact returnStatement_local hExpr
  · exact .here fun _ _ _ => (hExpr _).andThen fun _ _ =>
      (acceptOptional_local _).andThen fun _ _ =>
        .done (by decide)

/- One statement and those after it. -/
theorem consStatement_local
    {more more' : Parse (List Node)}
    (hMore : Local 0 0 Any more more') :
    Local 0 0 Any
      (do
        let first ← statement expr
        advance
        let others ← more
        return first :: others)
      (do
        let first ← statement expr
        advance
        let others ← more'
        return first :: others) :=
  (statement_local hExpr).andThen fun _ _ =>
    .pass (by decide) fun _ _ =>
      hMore.andThen fun _ _ => .done (by decide)

theorem blockStatements_local
    (n n' : Nat) :
    Local 0 0 Any (blockStatements expr n)
      (blockStatements expr n') := by
  refine .of_round rfl rfl (fun n n' ih => ?_) n n'
  refine .of_current fun m s s' hShares hAlike => ?_
  rw [← hAlike.1]
  by_cases hBrace : s.current.kind = .rbrace
  · rw [if_pos hBrace, if_pos hBrace]
    exact Local.done (Nat.le_refl 0) m s s' hShares
  · rw [if_neg hBrace, if_neg hBrace]
    by_cases hEof : s.current.kind = .eof
    · rw [if_pos hEof, if_pos hEof]
      exact compares_fail
    · rw [if_neg hEof, if_neg hEof]
      exact consStatement_local hExpr ih m s s' hShares

theorem programStatements_local
    (n n' : Nat) :
    Local 0 0 Any (programStatements expr n)
      (programStatements expr n') := by
  refine .of_round rfl rfl (fun n n' ih => ?_) n n'
  exact .here fun t u hAlike =>
    .ite (by rw [hAlike.1]) (.done (by decide))
      (consStatement_local hExpr ih)

theorem block_local :
    Local 0 0 Any (block expr) (block expr) :=
  .here fun _ _ _ => .pass (by decide) fun _ _ =>
    .count fun n n' =>
      (blockStatements_local hExpr n n').andThen fun _ _ =>
        .done (by decide)

/- A program. -/
theorem program_local :
    Local 0 0 Any (program expr) (program expr) :=
  .count fun n n' =>
    (programStatements_local hExpr n n').andThen fun _ _ =>
      .done (by decide)

------------------------------------------------------------
-- Lists of Expressions
------------------------------------------------------------

theorem moreExpressions_local
    (n n' : Nat) :
    Local 1 1 Any (moreExpressions expr n)
      (moreExpressions expr n') := by
  refine .of_round rfl rfl (fun n n' ih => ?_) n n'
  exact .look (by decide) fun t u hAlike =>
    .ite (by rw [hAlike.1])
      (.pass (by decide) fun _ _ => .pass (by decide) fun _ _ =>
        (hExpr _).andThen fun _ _ =>
          ih.andThen fun _ _ => .done (by decide))
      (.done (by decide))

theorem expressionList_local
    (close : TokenKind) :
    Local 0 0 Any (expressionList expr close)
      (expressionList expr close) :=
  .look (by decide) fun t u hAlike =>
    .ite (by rw [hAlike.1])
      (.pass (by decide) fun _ _ => .done (by decide))
      (.pass (by decide) fun _ _ =>
        (hExpr _).andThen fun _ _ => .count fun n n' =>
          (moreExpressions_local hExpr n n').andThen fun _ _ =>
            .want (by decide) fun _ _ => .done (by decide))

theorem hashPairs_local
    (n n' : Nat) :
    Local 1 1 Any (hashPairs expr n)
      (hashPairs expr n') := by
  refine .of_round rfl rfl (fun n n' ih => ?_) n n'
  refine (atPairsEnd_local (by decide)).bind (fun _ => rfl) ?_
  rintro atEnd _ rfl
  refine .ite .rfl (.done (by decide)) ?_
  refine .pass (by decide) fun _ _ => (hExpr _).andThen fun _ _ =>
    .want (by decide) fun _ _ => .pass (by decide) fun _ _ =>
      (hExpr _).andThen fun _ _ => ?_
  refine (atPairsEnd_local (by decide)).bind (fun _ => rfl) ?_
  rintro isLast _ rfl
  refine .ite .rfl ?_ ?_
  · exact ih.andThen fun _ _ => .done (by decide)
  · exact .want (by decide) fun _ _ =>
      (ih.of_le (by decide)).andThen fun _ _ =>
        .done (by decide)

------------------------------------------------------------
-- First Parts
------------------------------------------------------------

theorem alternative_local :
    Local 0 1 Any (alternative expr) (alternative expr) :=
  .look (by decide) fun t u hAlike =>
    .ite (by rw [hAlike.1])
      (.pass (by decide) fun _ _ => .want (by decide) fun _ _ =>
        (block_local hExpr).andThen fun _ _ =>
          .done (by decide))
      (.done (by decide))

theorem ifExpression_local :
    Local 0 1 Any (ifExpression expr) (ifExpression expr) :=
  .here fun _ _ _ => .want (by decide) fun _ _ =>
    .pass (by decide) fun _ _ => (hExpr _).andThen fun _ _ =>
      .want (by decide) fun _ _ => .want (by decide) fun _ _ =>
        (block_local hExpr).andThen fun _ _ =>
          (alternative_local hExpr).andThen fun _ _ =>
            .done (by decide)

theorem functionLiteral_local :
    Local 0 1 Any (functionLiteral expr)
      (functionLiteral expr) :=
  .here fun _ _ _ => .want (by decide) fun _ _ =>
    parameters_local.andThen fun _ _ =>
      .want (by decide) fun _ _ =>
        (block_local hExpr).andThen fun _ _ =>
          .done (by decide)

omit hExpr in
/- An integer may be too long, and then shows an error at its
   own token. -/
theorem integerLiteral_local :
    Local 0 1 Any integerLiteral integerLiteral := by
  refine .of_current fun n s s' hShares hAlike => ?_
  rw [← hAlike.2]
  cases readInteger? s.current.literal with
  | some m => exact Local.done (by decide) n s s' hShares
  | none => exact compares_fail

theorem firstPart_local :
    Local 0 1 Any (firstPart expr) (firstPart expr) := by
  refine .of_current fun n s s' hShares hAlike => ?_
  have hPrefix :
      Local 0 1 Any (prefixExpression expr)
        (prefixExpression expr) :=
    .here fun _ _ _ => .pass (by decide) fun _ _ =>
      (hExpr _).andThen fun _ _ => .done (by decide)
  have hGroup :
      Local 0 1 Any (groupedExpression expr)
        (groupedExpression expr) :=
    .pass (by decide) fun _ _ => (hExpr _).andThen fun _ _ =>
      .want (by decide) fun _ _ => .done (by decide)
  have hArray :
      Local 0 1 Any (arrayLiteral expr) (arrayLiteral expr) :=
    .here fun _ _ _ =>
      (expressionList_local hExpr _).andThen fun _ _ =>
        .done (by decide)
  have hHash :
      Local 0 1 Any (hashLiteral expr) (hashLiteral expr) :=
    .here fun _ _ _ => .count fun m m' =>
      ((hashPairs_local hExpr m m').of_le
          (by decide)).andThen fun _ _ =>
        .want (by decide) fun _ _ => .done (by decide)
  rw [← hAlike.1]
  generalize s.current.kind = kind
  split
  · exact Local.done (by decide) n s s' hShares
  · exact integerLiteral_local n s s' hShares
  · exact Local.done (by decide) n s s' hShares
  · exact Local.done (by decide) n s s' hShares
  · exact Local.done (by decide) n s s' hShares
  · exact hPrefix n s s' hShares
  · exact hPrefix n s s' hShares
  · exact hGroup n s s' hShares
  · exact ifExpression_local hExpr n s s' hShares
  · exact functionLiteral_local hExpr n s s' hShares
  · exact hArray n s s' hShares
  · exact hHash n s s' hShares
  · exact compares_fail

------------------------------------------------------------
-- Expressions
------------------------------------------------------------

theorem continuation_local
    (left left' : Node) :
    Local 0 1 Any (continuation expr left)
      (continuation expr left') := by
  refine .here fun t u hAlike => ?_
  rw [hAlike.1]
  split
  · exact .here fun _ _ _ =>
      (expressionList_local hExpr _).andThen fun _ _ =>
        .done (by decide)
  · exact .here fun _ _ _ => .pass (by decide) fun _ _ =>
      (hExpr _).andThen fun _ _ => .want (by decide) fun _ _ =>
        .done (by decide)
  · refine .here fun t u hAlike => .pass (by decide) fun _ _ => ?_
    rw [hAlike.1]
    exact (hExpr _).andThen fun _ _ => .done (by decide)

theorem continuations_local
    (p : Precedence)
    (n n' : Nat)
    (left left' : Node) :
    Local 1 1 Any (continuations expr p n left)
      (continuations expr p n' left') := by
  refine .of_rounds (fun _ => rfl) (fun _ => rfl)
    (fun n n' ih left left' => ?_) n n' left left'
  exact .look (by decide) fun t u hAlike =>
    .ite (by rw [hAlike.1])
      (.pass (by decide) fun _ _ =>
        (continuation_local hExpr left left').andThen ih)
      (.done (by decide))

theorem expressionStep_local
    (p : Precedence) :
    Local 0 1 Any (expressionStep expr p)
      (expressionStep expr p) :=
  (firstPart_local hExpr).andThen fun left left' =>
    .count fun n n' =>
      continuations_local hExpr p n n' left left'

omit hExpr in
/- Expressions of any number of levels. -/
theorem expression_local
    (depth : Nat)
    (p : Precedence) :
    Local 0 1 Any (expression depth p)
      (expression depth p) := by
  induction depth generalizing p with
  | zero => exact .tooDeep _
  | succ depth ih => exact expressionStep_local ih p

end Parse

end Monkey
