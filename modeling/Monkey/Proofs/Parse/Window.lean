import Monkey.Proofs.Parse.Hereditary
import Monkey.Proofs.Parse.Locality
import Monkey.Proofs.Token.Actions

/-
  The two tokens that a parser has in sight.

  A parser sees a token of the text and the one after it, as they
  are read one by one.  Whatever it is made to do, and also where
  it fails and is made to go on, it moves forward over the tokens
  without leaving one out, and an error is about one of the two
  that are in sight then.

  Main declarations:
    * `Cursor.tokenAfter`
    * `Parse.Forward`
    * `ParserAction`
    * `TokenStream.actAll`
    * `tokens_in_sight`
-/

namespace Monkey

------------------------------------------------------------
-- Reading Tokens One by One
------------------------------------------------------------

namespace Cursor

/- The token that is read after a number of others.  The end of
   the text is read again and again. -/
def tokenAfter : Nat → Cursor → Token
  | 0, cur => cur.nextToken.1
  | k + 1, cur => tokenAfter k cur.nextToken.2

variable {cur : Cursor}

theorem tokenAfter_of_eof
    (hKind : cur.nextToken.1.kind = .eof)
    (k : Nat) :
    cur.tokenAfter k = cur.nextToken.1 := by
  induction k generalizing cur with
  | zero => rfl
  | succ k ih =>
      rcases nextToken_of_eof hKind with ⟨hRest, hEnd⟩
      have hAgain := nextToken_of_rest_nil hRest
      have hSame :
          cur.nextToken.2.nextToken.1 = cur.nextToken.1 := by
        rw [hAgain, hEnd]
      unfold tokenAfter
      rw [ih (hSame ▸ hKind), hSame]

/- Listing tokens gives those that are read one by one, and the
   last one again and again. -/
theorem getD_tokensWithin
    {count : Nat}
    (hEnough : cur.rest.length < count)
    (other : Token)
    (k : Nat) :
    ((cur.tokensWithin count).1[k]?).getD
        ((cur.tokensWithin count).1.getLastD other) =
      cur.tokenAfter k := by
  induction count generalizing cur other k with
  | zero => exact absurd hEnough (Nat.not_lt_zero _)
  | succ count ih =>
      by_cases hKind : cur.nextToken.1.kind = .eof
      · rw [tokensWithin_succ_of_eof hKind, tokenAfter_of_eof hKind]
        cases k <;> rfl
      · rw [tokensWithin_succ hKind]
        have hShorter := nextToken_shorter hKind
        have hFewer : cur.nextToken.2.rest.length < count := by
          omega
        cases k with
        | zero => rfl
        | succ k =>
            rw [List.getElem?_cons_succ, List.getLastD_cons]
            exact ih hFewer cur.nextToken.1 k

end Cursor

namespace TokenStream

/- The tokens ahead in a text are those that are read one by
   one. -/
theorem ahead_eq_tokenAfter
    (source : String)
    (k : Nat) :
    (ofText source).ahead k =
      (Cursor.ofText source).tokenAfter k :=
  Cursor.getD_tokensWithin (Nat.lt_succ_self _) _ k

end TokenStream

------------------------------------------------------------
-- Moving Forward
------------------------------------------------------------

namespace Parse

/-
  What a computation does to a stream: it passes some tokens,
  whatever it ends in, and an error is about the current token
  then or the one after it.
-/
def Forward
    {α : Type}
    (x : Parse α)
    (s : TokenStream) : Prop :=
  match x s with
  | .ok _ t => ∃ k, t = s.drop k
  | .error failure t =>
      (∃ k, t = s.drop k) ∧
        ∀ e, failure = .error e →
          e.token = t.current ∨ e.token = t.peek

theorem forward_bind
    {α β : Type}
    {x : Parse α}
    {f : α → Parse β}
    {s : TokenStream}
    (hFirst : Forward x s)
    (hNext : ∀ a t, x s = .ok a t → Forward (f a) t) :
    Forward (x >>= f) s := by
  unfold Forward at hFirst ⊢
  rw [bind_apply]
  cases hx : x s with
  | error failure t =>
      rw [hx] at hFirst
      exact hFirst
  | ok a t =>
      rw [hx] at hFirst
      have hMore := hNext a t hx
      rcases hFirst with ⟨k, rfl⟩
      unfold Forward at hMore
      dsimp only
      cases hf : f a (s.drop k) with
      | ok b u =>
          rw [hf] at hMore
          rcases hMore with ⟨j, rfl⟩
          exact ⟨k + j, TokenStream.drop_drop ..⟩
      | error failure u =>
          rw [hf] at hMore
          rcases hMore with ⟨⟨j, rfl⟩, hToken⟩
          exact ⟨⟨k + j, TokenStream.drop_drop ..⟩, hToken⟩

/- Stopping where a token in sight is wrong. -/
theorem forward_fail
    {α : Type}
    {s : TokenStream}
    {token : Token}
    (cause : ParseError.Cause)
    (hToken : token = s.current ∨ token = s.peek) :
    Forward (fail cause token : Parse α) s := by
  refine ⟨⟨0, rfl⟩, ?_⟩
  rintro _ ⟨⟩
  exact hToken

/- All rules move forward. -/
theorem forward_hereditary : Hereditary Forward where
  looks := by
    intro α x s a hRun
    unfold Forward
    rw [hRun]
    exact ⟨0, rfl⟩
  passes s := ⟨1, s.drop_one.symm⟩
  tooDeep s := by
    refine ⟨⟨0, rfl⟩, ?_⟩
    rintro _ ⟨⟩
  atCurrent cause s := forward_fail cause (.inl rfl)
  atPeek cause s := forward_fail cause (.inr rfl)
  bind := forward_bind

/- Either the token that is expected is next and gets current, or
   nothing moves. -/
theorem expect_eq
    (kind : TokenKind)
    (s : TokenStream) :
    expect kind s =
      if s.peek.kind = kind then
        .ok () (s.drop 1)
      else
        .error
          (.error ⟨.unexpected kind s.peek.kind, s.peek⟩) s := by
  unfold expect
  rw [bind_peek, s.drop_one]
  split <;> rfl

end Parse

------------------------------------------------------------
-- What a Parser Can Be Made to Do
------------------------------------------------------------

/- What can be asked of a parser.  Expressions may be nested to a
   depth that each request sets. -/
inductive ParserAction where
  | nextToken
  | expect (kind : TokenKind)
  | statement (depth : Nat)
  | expression (depth : Nat) (p : Precedence)
  | block (depth : Nat)
  | parameters
  | expressionList (depth : Nat) (close : TokenKind)
  | program (depth : Nat)

/- The rule for a request, without what it reads. -/
def ParserAction.rule : ParserAction → Parse Unit
  | nextToken => Parse.advance
  | expect kind => Parse.expect kind
  | statement depth =>
      discard (Parse.statement (Parse.expression depth))
  | expression depth p => discard (Parse.expression depth p)
  | block depth =>
      discard (Parse.block (Parse.expression depth))
  | parameters => discard Parse.parameters
  | expressionList depth close =>
      discard
        (Parse.expressionList (Parse.expression depth) close)
  | program depth =>
      discard (Parse.program (Parse.expression depth))

theorem ParserAction.rule_forward
    (action : ParserAction)
    (s : TokenStream) :
    Parse.Forward action.rule s := by
  have h := Parse.forward_hereditary
  have hDiscard :
      ∀ {α : Type} {x : Parse α},
        Parse.Forward x s → Parse.Forward (discard x) s :=
    fun hFirst => h.andThen hFirst fun _ => h.pure _
  cases action with
  | nextToken => exact h.passes s
  | expect kind => exact h.expect kind s
  | statement depth =>
      exact hDiscard (h.statement (h.expression depth) s)
  | expression depth p => exact hDiscard (h.expression depth p s)
  | block depth =>
      exact hDiscard (h.block (h.expression depth) s)
  | parameters => exact hDiscard (h.parameters s)
  | expressionList depth close =>
      exact hDiscard (h.expressionList (h.expression depth) close s)
  | program depth =>
      exact hDiscard (h.program (h.expression depth) s)

namespace TokenStream

/- What a request fails with, if it does, and the stream that it
   leaves in any case. -/
def act
    (s : TokenStream)
    (action : ParserAction) :
    Option ParseFailure × TokenStream :=
  match action.rule s with
  | .ok _ t => (none, t)
  | .error failure t => (some failure, t)

/- The stream after a sequence of requests, of which any may have
   failed. -/
def actAll
    (s : TokenStream)
    (actions : List ParserAction) :
    TokenStream :=
  actions.foldl (fun s action => (s.act action).2) s

/- The number of tokens of a text that have been passed. -/
def passed
    (source : String)
    (s : TokenStream) :
    Nat :=
  (tokens source).length - s.pending.length

/- Two tokens of a text are in sight: the one at a place and the
   one after it.  The last token is at all later places, too. -/
structure Sees
    (source : String)
    (place : Nat)
    (s : TokenStream) : Prop where
  current : s.current = (ofText source).ahead place
  peek : s.peek = (ofText source).ahead (place + 1)

variable {s t : TokenStream}
variable {action : ParserAction}

theorem act_of_ok
    (hRun : action.rule s = .ok () t) :
    s.act action = (none, t) := by
  unfold act
  rw [hRun]

theorem act_of_error
    {failure : ParseFailure}
    (hRun : action.rule s = .error failure t) :
    s.act action = (some failure, t) := by
  unfold act
  rw [hRun]

/- A request passes some tokens, also where it fails. -/
theorem exists_drop_act
    (action : ParserAction)
    (s : TokenStream) :
    ∃ k, (s.act action).2 = s.drop k := by
  have hForward := action.rule_forward s
  unfold Parse.Forward at hForward
  cases hRun : action.rule s with
  | ok _ t =>
      rw [hRun] at hForward
      rw [act_of_ok hRun]
      exact hForward
  | error failure t =>
      rw [hRun] at hForward
      rw [act_of_error hRun]
      exact hForward.1

theorem exists_drop_actAll
    (actions : List ParserAction)
    (s : TokenStream) :
    ∃ k, s.actAll actions = s.drop k := by
  induction actions generalizing s with
  | nil => exact ⟨0, rfl⟩
  | cons action more ih =>
      rcases exists_drop_act action s with ⟨k, hFirst⟩
      rcases ih (s.act action).2 with ⟨j, hMore⟩
      refine ⟨k + j, ?_⟩
      rw [← drop_drop, ← hFirst]
      exact hMore

/- An error is about a token in sight. -/
theorem token_of_act_error
    {e : ParseError}
    (hFailure : (s.act action).1 = some (.error e)) :
    e.token = (s.act action).2.current ∨
      e.token = (s.act action).2.peek := by
  have hForward := action.rule_forward s
  unfold Parse.Forward at hForward
  cases hRun : action.rule s with
  | ok _ t =>
      rw [act_of_ok hRun] at hFailure
      cases hFailure
  | error failure t =>
      rw [hRun] at hForward
      rw [act_of_error hRun] at hFailure ⊢
      exact hForward.2 e (Option.some_inj.mp hFailure)

theorem act_nextToken
    (s : TokenStream) :
    s.act .nextToken = (none, s.drop 1) := by
  rw [drop_one]
  rfl

/- An expected token is passed, and no other one. -/
theorem act_expect
    (kind : TokenKind)
    (s : TokenStream) :
    s.act (.expect kind) =
      if s.peek.kind = kind then
        (none, s.drop 1)
      else
        (some (.error ⟨.unexpected kind s.peek.kind, s.peek⟩),
          s) := by
  have hRun := Parse.expect_eq kind s
  split
  · next hKind =>
      rw [if_pos hKind] at hRun
      exact act_of_ok hRun
  · next hKind =>
      rw [if_neg hKind] at hRun
      exact act_of_error hRun

------------------------------------------------------------
-- The Number of Tokens Passed
------------------------------------------------------------

theorem passed_drop
    (source : String)
    (k : Nat) :
    ((ofText source).drop k).passed source =
      min k (tokens source).length := by
  unfold passed drop
  rw [List.length_drop]
  change (tokens source).length - ((tokens source).length - k) = _
  omega

theorem passed_le_drop
    (source : String)
    (k : Nat) :
    s.passed source ≤ (s.drop k).passed source := by
  unfold passed drop
  rw [List.length_drop]
  omega

/- A stream is known from the number of tokens passed. -/
theorem drop_passed
    (source : String)
    (k : Nat) :
    (ofText source).drop
        (((ofText source).drop k).passed source) =
      (ofText source).drop k := by
  rw [passed_drop]
  unfold drop
  rw [List.drop_eq_drop_min (i := k)]
  rfl

theorem sees_passed
    (source : String)
    (k : Nat) :
    ((ofText source).drop k).Sees source
      (((ofText source).drop k).passed source) := by
  have hAhead :
      ∀ j,
        ((ofText source).drop k).ahead j =
          (ofText source).ahead
            (((ofText source).drop k).passed source + j) := by
    intro j
    rw [← ahead_drop, drop_passed]
  constructor
  · rw [← ahead_zero]
    exact hAhead 0
  · rw [← ahead_one]
    exact hAhead 1

------------------------------------------------------------
-- One More Request
------------------------------------------------------------

/- What one more request does to a stream with a text's tokens. -/
structure Walks
    (source : String)
    (action : ParserAction)
    (s : TokenStream) : Prop where
  before : s.Sees source (s.passed source)
  after :
    (s.act action).2.Sees source
      ((s.act action).2.passed source)
  forward :
    s.passed source ≤ (s.act action).2.passed source
  moves : action = .nextToken → s.act action = (none, s.drop 1)
  expects :
    ∀ kind, action = .expect kind →
      s.act action =
        if s.peek.kind = kind then
          (none, s.drop 1)
        else
          (some
            (.error ⟨.unexpected kind s.peek.kind, s.peek⟩), s)
  blames :
    ∀ e, (s.act action).1 = some (.error e) →
      ∃ k,
        (k = (s.act action).2.passed source ∨
            k = (s.act action).2.passed source + 1) ∧
          e.token = (ofText source).ahead k

theorem walks_drop
    (source : String)
    (action : ParserAction)
    (k : Nat) :
    ((ofText source).drop k).Walks source action := by
  rcases exists_drop_act action ((ofText source).drop k)
    with ⟨j, hAfter⟩
  have hSees := sees_passed source (k + j)
  rw [← drop_drop, ← hAfter] at hSees
  constructor
  case before => exact sees_passed source k
  case after => exact hSees
  case forward =>
    rw [hAfter]
    exact passed_le_drop source j
  case moves =>
    rintro rfl
    exact act_nextToken _
  case expects =>
    rintro kind rfl
    exact act_expect kind _
  case blames =>
    intro e hError
    rcases token_of_act_error hError with hToken | hToken
    · exact ⟨_, .inl rfl, hToken.trans hSees.current⟩
    · exact ⟨_, .inr rfl, hToken.trans hSees.peek⟩

end TokenStream

/-
  Whatever has been asked of a parser before, and whatever of it
  failed: two neighbouring tokens are in sight, of those that are
  read from the text one by one.  The next request moves on from
  there, without going back.  Asking for the next token or for one
  of the kind that is next moves by one token, expecting another
  kind moves by none, and an error is about a token that is in
  sight where it left the parser.
-/
theorem tokens_in_sight
    (source : String)
    (actions : List ParserAction)
    (action : ParserAction) :
    (∀ k,
        (TokenStream.ofText source).ahead k =
          (Cursor.ofText source).tokenAfter k) ∧
      ((TokenStream.ofText source).actAll actions).Walks
        source action := by
  rcases TokenStream.exists_drop_actAll actions
    (TokenStream.ofText source) with ⟨k, hBefore⟩
  rw [hBefore]
  exact ⟨TokenStream.ahead_eq_tokenAfter source,
    TokenStream.walks_drop source action k⟩

end Monkey
