import Monkey.Proofs.Parse.NestingLimit
import Monkey.Proofs.Token.EndOfText

/-
  Parsing comes to an end.

  A parser could spin at the end of a text, which shows for
  ever, and it could nest without reading.  Neither happens:
  every round of a loop passes a token before the end, every
  rule ends on such a token, and an expression is nested only
  after a token has been passed.  So the loops end by themselves
  within the rounds that they are given, and as many levels of
  nesting as a text has tokens are enough.

  Main declarations:
    * `Parse.Arrives`
    * `Parse.Loop.Ends`
    * `Parse.Loop.read_arrives`
    * `Parse.expression_ends`
    * `parsing_terminates`
-/

namespace Monkey

------------------------------------------------------------
-- Before the End
------------------------------------------------------------

namespace TokenStream

/- The end of the text is the last of the tokens ahead. -/
structure EndAhead (s : TokenStream) : Prop where
  last : ∃ ts, s.pending = ts ++ [s.final]
  final : s.final.kind = .eof

/- The current token stands before the end of the text. -/
structure AtToken (s : TokenStream) : Prop extends
    EndAhead s where
  real : s.current.kind ≠ .eof

variable {s : TokenStream}

theorem endAhead_ofText
    (source : String) :
    (ofText source).EndAhead := by
  rcases ofText_eq source with ⟨stop, hStream, hStop, -⟩
  rw [hStream]
  exact ⟨⟨_, rfl⟩, hStop⟩

theorem EndAhead.length_pos
    (h : s.EndAhead) :
    0 < s.pending.length := by
  rcases h.last with ⟨ts, hPending⟩
  rw [hPending, List.length_append]
  exact Nat.succ_pos _

/- A token before the end can be passed. -/
theorem AtToken.advance
    (h : s.AtToken) :
    s.advance.EndAhead ∧
      s.advance.pending.length < s.pending.length := by
  rcases h.last with ⟨ts, hPending⟩
  cases ts with
  | nil =>
      refine absurd h.final ?_
      simpa [current, hPending] using h.real
  | cons t ts =>
      refine ⟨⟨⟨ts, ?_⟩, h.final⟩, ?_⟩ <;>
        simp [TokenStream.advance, hPending]

/- So can the current one where another one follows. -/
theorem EndAhead.advance
    (h : s.EndAhead)
    (hReal : s.peek.kind ≠ .eof) :
    s.advance.AtToken ∧
      s.advance.pending.length < s.pending.length := by
  rcases h.last with ⟨ts, hPending⟩
  cases ts with
  | nil =>
      refine absurd h.final ?_
      simpa [peek, hPending] using hReal
  | cons t ts =>
      refine ⟨⟨⟨⟨ts, ?_⟩, h.final⟩, hReal⟩, ?_⟩ <;>
        simp [TokenStream.advance, hPending]

end TokenStream

namespace Parse

variable {α β σ : Type}
variable {deep : Prop}
variable {post : α → TokenStream → Prop}
variable {s t : TokenStream}
variable {n bound : Nat}

------------------------------------------------------------
-- Where Computations Arrive
------------------------------------------------------------

/-
  What a computation does from a stream on: where it succeeds,
  the result and the stream after it are as described, and it
  stops for the depth of nesting only if `deep` holds.
-/
def Arrives
    (deep : Prop)
    (post : α → TokenStream → Prop)
    (x : Parse α)
    (s : TokenStream) : Prop :=
  match x s with
  | .ok a t => post a t
  | .error .tooDeep _ => deep
  | .error (.error _) _ => True

/- It arrives at a token before the end, with at most `n` tokens
   left. -/
def EndsBy
    (deep : Prop)
    (n : Nat)
    (x : Parse α)
    (s : TokenStream) : Prop :=
  Arrives deep
    (fun _ t => t.AtToken ∧ t.pending.length ≤ n) x s

namespace Arrives

theorem pure
    {a : α}
    (h : post a s) :
    Arrives deep post (Pure.pure a) s :=
  h

theorem mono
    {deep' : Prop}
    {post' : α → TokenStream → Prop}
    {x : Parse α}
    (h : Arrives deep post x s)
    (hDeep : deep → deep')
    (hPost : ∀ a t, post a t → post' a t) :
    Arrives deep' post' x s := by
  unfold Arrives at h ⊢
  cases hx : x s with
  | ok a t =>
      rw [hx] at h
      exact hPost a t h
  | error failure t =>
      rw [hx] at h
      cases failure with
      | tooDeep => exact hDeep h
      | error e => trivial

/- What arrives is the result. -/
theorem result
    {x : Parse α}
    (h : Arrives deep post x s) :
    Arrives deep (fun a t => post a t ∧ x s = .ok a t) x s := by
  unfold Arrives at h ⊢
  cases hx : x s with
  | ok a t =>
      rw [hx] at h
      exact ⟨h, rfl⟩
  | error failure t =>
      rw [hx] at h
      cases failure with
      | tooDeep => exact h
      | error e => trivial

theorem bind
    {mid : β → TokenStream → Prop}
    {x : Parse β}
    {f : β → Parse α}
    (h : Arrives deep mid x s)
    (hNext : ∀ b t, mid b t → Arrives deep post (f b) t) :
    Arrives deep post (x >>= f) s := by
  unfold Arrives at h ⊢
  rw [bind_apply]
  cases hx : x s with
  | ok b t =>
      rw [hx] at h
      exact hNext b t h
  | error failure t =>
      rw [hx] at h
      cases failure with
      | tooDeep => exact h
      | error e => trivial

theorem fail
    {cause : ParseError.Cause}
    {token : Token} :
    Arrives deep post (Parse.fail cause token) s :=
  trivial

/- Go on with the current token. -/
theorem here
    {f : Token → Parse α}
    (h : Arrives deep post (f s.current) s) :
    Arrives deep post (current >>= f) s :=
  h

/- Go on after looking at the next token. -/
theorem look
    {f : Token → Parse α}
    (h : Arrives deep post (f s.peek) s) :
    Arrives deep post (peek >>= f) s :=
  h

/- Go on with the name at the current token. -/
theorem name
    {f : Identifier → Parse α}
    (h : ∀ id, Arrives deep post (f id) s) :
    Arrives deep post (identifierHere >>= f) s :=
  h _

/- Go on with what is known of the end of pairs. -/
theorem pairsEnd
    {f : Bool → Parse α}
    (h :
      ∀ b,
        (s.peek.kind == .rbrace || s.peek.kind == .eof) = b →
          Arrives deep post (f b) s) :
    Arrives deep post (atPairsEnd >>= f) s :=
  h _ rfl

/- Go on with enough rounds for a loop. -/
theorem count
    {f : Nat → Parse α}
    (h : ∀ n, s.pending.length < n → Arrives deep post (f n) s) :
    Arrives deep post (rounds >>= f) s :=
  h _ (Nat.lt_succ_self _)

/- Go on past a token before the end. -/
theorem pass
    {f : Unit → Parse α}
    (hs : s.AtToken)
    (hNext :
      s.advance.EndAhead →
        s.advance.pending.length < s.pending.length →
          Arrives deep post (f ()) s.advance) :
    Arrives deep post (Parse.advance >>= f) s :=
  hNext hs.advance.1 hs.advance.2

/- Go on at the token that follows. -/
theorem follow
    {f : Unit → Parse α}
    (hs : s.EndAhead)
    (hReal : s.peek.kind ≠ .eof)
    (hNext :
      s.advance.AtToken →
        s.advance.pending.length < s.pending.length →
          Arrives deep post (f ()) s.advance) :
    Arrives deep post (Parse.advance >>= f) s :=
  hNext (hs.advance hReal).1 (hs.advance hReal).2

/- A token of a certain kind is passed. -/
theorem expect
    {kind : TokenKind} :
    Arrives deep
      (fun _ t => s.peek.kind = kind ∧ t = s.advance)
      (Parse.expect kind) s := by
  refine look ?_
  split
  · next hKind => exact ⟨hKind, rfl⟩
  · exact fail

/- Go on at a token of a certain kind. -/
theorem want
    {kind : TokenKind}
    {f : Unit → Parse α}
    (hs : s.EndAhead)
    (hReal : kind ≠ .eof)
    (hNext :
      s.advance.current.kind = kind →
        s.advance.AtToken →
          s.advance.pending.length < s.pending.length →
            Arrives deep post (f ()) s.advance) :
    Arrives deep post (Parse.expect kind >>= f) s := by
  refine Arrives.expect.bind ?_
  rintro _ _ ⟨hKind, rfl⟩
  have hAdvance := hs.advance (by rw [hKind]; exact hReal)
  exact hNext hKind hAdvance.1 hAdvance.2

end Arrives

namespace EndsBy

theorem bind
    {x : Parse β}
    {f : β → Parse α}
    (h : EndsBy deep n x s)
    (hNext :
      ∀ b t, t.AtToken → t.pending.length ≤ n →
        Arrives deep post (f b) t) :
    Arrives deep post (x >>= f) s :=
  Arrives.bind h fun b t hT => hNext b t hT.1 hT.2

/- An optional token is passed or left alone. -/
theorem acceptOptional
    {kind : TokenKind}
    (hs : s.AtToken)
    (hReal : kind ≠ .eof)
    (hLength : s.pending.length ≤ n) :
    EndsBy deep n (acceptOptional kind) s := by
  change EndsBy deep n
    (if s.peek.kind = kind then advance else Pure.pure ()) s
  split
  · next hKind =>
      have hAdvance :=
        hs.toEndAhead.advance (by rw [hKind]; exact hReal)
      exact ⟨hAdvance.1, by omega⟩
  · exact ⟨hs, hLength⟩

end EndsBy

------------------------------------------------------------
-- Loops
------------------------------------------------------------

/-
  A loop over what has been read so far.  A round gives what to
  go on with, or nothing where the loop is over; `read` is the
  whole loop with a number of rounds.  The test for the end looks
  at the current token or at the one after it.
-/
structure Loop (σ : Type) where
  looksAhead : Bool
  round : σ → Parse (Option σ)
  read : Nat → σ → Parse σ

/- A loop that ends after a number of rounds that went on, with
   no limit on that number. -/
inductive Repeats
    (round : σ → Parse (Option σ)) :
    Nat → σ → TokenStream →
      EStateM.Result ParseFailure TokenStream σ → Prop
  | over
      {a : σ}
      {s t : TokenStream}
      (hRound : round a s = .ok none t) :
      Repeats round 0 a s (.ok a t)
  | fails
      {a : σ}
      {s t : TokenStream}
      {e : ParseFailure}
      (hRound : round a s = .error e t) :
      Repeats round 0 a s (.error e t)
  | goesOn
      {a b : σ}
      {s t : TokenStream}
      {k : Nat}
      {r : EStateM.Result ParseFailure TokenStream σ}
      (hRound : round a s = .ok (some b) t)
      (hMore : Repeats round k b t r) :
      Repeats round (k + 1) a s r

namespace Loop

variable {loop : Loop σ}

/- The token that a loop looks at. -/
def token
    (looksAhead : Bool)
    (s : TokenStream) :
    Token :=
  if looksAhead then s.peek else s.current

/- Reading is going through rounds. -/
def Unrolls (loop : Loop σ) : Prop :=
  ∀ n a,
    loop.read (n + 1) a = do
      match ← loop.round a with
      | some b => loop.read n b
      | none => return a

/-
  Every round passes a token or is the last one.  It is the last
  one, or fails, where the loop looks at the end of the text, and
  never passes that end.  So the loop ends, with fewer rounds that
  go on than there are tokens; any more rounds change nothing.
-/
def Ends (loop : Loop σ) : Prop :=
  ∀ (a : σ) (s : TokenStream), s.EndAhead →
    (∀ b t, loop.round a s = .ok (some b) t →
      (token loop.looksAhead s).kind ≠ .eof ∧ t.EndAhead ∧
        t.pending.length < s.pending.length) ∧
      ∀ n, s.pending.length < n →
        ∃ k < s.pending.length,
          Repeats loop.round k a s (loop.read n a s)

/- Where a round gets to from a stream. -/
def Arrived
    (looksAhead : Bool)
    (s : TokenStream) :
    Option α → TokenStream → Prop
  | none, t => t = s
  | some _, t =>
      (token looksAhead s).kind ≠ .eof ∧ t.EndAhead ∧
        (looksAhead = true → t.AtToken) ∧
          t.pending.length < s.pending.length

/- Where at most a number of tokens are left, rounds do what
   they should. -/
def RoundsArrive
    (deep : Prop)
    (bound : Nat)
    (loop : Loop σ) : Prop :=
  ∀ (a : σ) (s : TokenStream), s.EndAhead →
    s.pending.length ≤ bound →
      Arrives deep (Arrived loop.looksAhead s) (loop.round a) s

/- A loop that goes forward ends. -/
theorem ends_of_roundsArrive
    (hUnrolls : loop.Unrolls)
    (hRounds : ∀ bound, loop.RoundsArrive True bound) :
    loop.Ends := by
  have hForward :
      ∀ (a b : σ) (s t : TokenStream), s.EndAhead →
        loop.round a s = .ok (some b) t →
          (token loop.looksAhead s).kind ≠ .eof ∧ t.EndAhead ∧
            t.pending.length < s.pending.length := by
    intro a b s t hs hRound
    have hArrived := hRounds _ a s hs (Nat.le_refl _)
    rw [Arrives, hRound] at hArrived
    exact ⟨hArrived.1, hArrived.2.1, hArrived.2.2.2⟩
  intro a s hs
  refine ⟨fun b t => hForward a b s t hs, ?_⟩
  intro n hEnough
  induction n generalizing a s with
  | zero => cases hEnough
  | succ n ih =>
      rw [hUnrolls, bind_apply]
      cases hRound : loop.round a s with
      | error e t => exact ⟨0, hs.length_pos, .fails hRound⟩
      | ok next t =>
          cases next with
          | none => exact ⟨0, hs.length_pos, .over hRound⟩
          | some b =>
              rcases hForward a b s t hs hRound with
                ⟨-, ht, hLess⟩
              rcases ih b t ht (by omega) with ⟨k, hk, hMore⟩
              exact ⟨k + 1, by omega, .goesOn hRound hMore⟩

/- Where a loop arrives, a round would be over at once. -/
theorem read_arrives
    (hUnrolls : loop.Unrolls)
    (hRounds : loop.RoundsArrive deep bound)
    (a : σ)
    (hs : s.EndAhead)
    (hBound : s.pending.length ≤ bound)
    (hEnough : s.pending.length < n) :
    Arrives deep
      (fun _ t =>
        t.EndAhead ∧ t.pending.length ≤ s.pending.length ∧
          (loop.looksAhead = true → s.AtToken → t.AtToken) ∧
            ∃ b, loop.round b t = .ok none t)
      (loop.read n a) s := by
  induction n generalizing a s with
  | zero => cases hEnough
  | succ n ih =>
      rw [hUnrolls]
      refine (hRounds a s hs hBound).result.bind ?_
      rintro (_ | b) t ⟨hArrived, hRound⟩
      · cases hArrived
        exact ⟨hs, Nat.le_refl _, fun _ h => h, a, hRound⟩
      · rcases hArrived with ⟨-, ht, hAtToken, hLess⟩
        refine Arrives.mono (ih b ht (by omega) (by omega)) id ?_
        rintro _ u ⟨hu, hLength, hReal, hOver⟩
        exact ⟨hu, by omega,
          fun hLooks _ => hReal hLooks (hAtToken hLooks),
          hOver⟩

/- A loop that looks at the token after the current one stays
   before the end of the text. -/
theorem read_ends
    (hAhead : loop.looksAhead = true)
    (hUnrolls : loop.Unrolls)
    (hRounds : loop.RoundsArrive deep bound)
    (a : σ)
    (hs : s.AtToken)
    (hBound : s.pending.length ≤ bound)
    (hEnough : s.pending.length < n) :
    EndsBy deep s.pending.length (loop.read n a) s := by
  refine Arrives.mono
    (read_arrives hUnrolls hRounds a hs.toEndAhead hBound
      hEnough) id ?_
  rintro b t ⟨-, hLength, hReal, -⟩
  exact ⟨hReal hAhead hs, hLength⟩

/- A loop that collects what its rounds read. -/
def collecting
    (looksAhead : Bool)
    (next : Parse (Option α))
    (read : Nat → Parse (List α)) :
    Loop (List α) where
  looksAhead := looksAhead
  round xs := do
    match ← next with
    | some x => return some (xs ++ [x])
    | none => return none
  read n xs := do
    return xs ++ (← read n)

/- From nothing on, it gives what it collects. -/
theorem collecting_read_nil
    {looksAhead : Bool}
    {next : Parse (Option α)}
    {read : Nat → Parse (List α)} :
    (collecting looksAhead next read).read n [] = read n := by
  simp [collecting]

theorem collecting_unrolls
    {looksAhead : Bool}
    {next : Parse (Option α)}
    {read : Nat → Parse (List α)}
    (hRead :
      ∀ n,
        read (n + 1) = do
          match ← next with
          | some x => return x :: (← read n)
          | none => return []) :
    (collecting looksAhead next read).Unrolls := by
  intro n xs
  simp only [collecting, hRead, bind_assoc]
  congr
  funext x
  cases x with
  | none => simp
  | some x =>
      simp only [bind_assoc, pure_bind, List.append_assoc,
        List.singleton_append]

theorem collecting_roundsArrive
    {looksAhead : Bool}
    {next : Parse (Option α)}
    {read : Nat → Parse (List α)}
    (hNext :
      ∀ s : TokenStream, s.EndAhead →
        s.pending.length ≤ bound →
          Arrives deep (Arrived looksAhead s) next s) :
    (collecting looksAhead next read).RoundsArrive deep
      bound := by
  intro xs s hs hBound
  refine (hNext s hs hBound).bind ?_
  rintro (_ | x) t hArrived <;> exact hArrived

end Loop

------------------------------------------------------------
-- The Loops of the Parser
------------------------------------------------------------

section

variable (expr : Precedence → Parse Node)

/- A statement and the step to the next one. -/
def statementPassed : Parse Node := do
  let s ← statement expr
  advance
  return s

/- The next statement before the end of the text. -/
def nextInProgram : Parse (Option Node) := do
  if (← current).kind = .eof then
    return none
  else
    return some (← statementPassed expr)

/- The next statement before a closing brace. -/
def nextInBlock : Parse (Option Node) := do
  let t ← current
  if t.kind = .rbrace then
    return none
  else if t.kind = .eof then
    fail (.unexpected .rbrace .eof) t
  else
    return some (← statementPassed expr)

/- The next parameter after a comma. -/
def nextParameter : Parse (Option Identifier) := do
  if (← peek).kind = .comma then
    advance
    expect .ident
    return some (← identifierHere)
  else
    return none

/- The next expression after a comma. -/
def nextExpression : Parse (Option Node) := do
  if (← peek).kind = .comma then
    advance
    advance
    return some (← expr .lowest)
  else
    return none

/- The comma after a pair that is not the last one. -/
def commaAfterPair : Parse Unit := do
  if ← atPairsEnd then
    pure ()
  else
    expect .comma

/- The next pair of a hash. -/
def nextPair : Parse (Option (Node × Node)) := do
  if ← atPairsEnd then
    return none
  else
    advance
    let key ← expr .lowest
    expect .colon
    advance
    let value ← expr .lowest
    commaAfterPair
    return some (key, value)

/- Statements of a program. -/
def programLoop : Loop (List Node) :=
  .collecting false (nextInProgram expr)
    (programStatements expr)

/- Statements of a block. -/
def blockLoop : Loop (List Node) :=
  .collecting false (nextInBlock expr) (blockStatements expr)

/- Parameters of a function after the first one. -/
def parameterLoop : Loop (List Identifier) :=
  .collecting true nextParameter moreParameters

/- Arguments or elements after the first one. -/
def expressionLoop : Loop (List Node) :=
  .collecting true (nextExpression expr) (moreExpressions expr)

/- Pairs of a hash. -/
def pairLoop : Loop (List (Node × Node)) :=
  .collecting true (nextPair expr) (hashPairs expr)

/- Operators, calls, and indexings that bind more tightly than
   asked. -/
def operatorLoop (p : Precedence) : Loop Node where
  looksAhead := true
  round left := do
    if p.rank < (← peek).kind.precedence.rank then
      advance
      return some (← continuation expr left)
    else
      return none
  read := continuations expr p

theorem programLoop_unrolls : (programLoop expr).Unrolls := by
  refine Loop.collecting_unrolls fun n => ?_
  funext s
  simp only [programStatements, nextInProgram, bind_assoc,
    bind_current]
  split <;> simp [statementPassed]

theorem blockLoop_unrolls : (blockLoop expr).Unrolls := by
  refine Loop.collecting_unrolls fun n => ?_
  funext s
  simp only [blockStatements, nextInBlock, bind_assoc,
    bind_current]
  split
  · simp
  · split
    · rfl
    · simp [statementPassed]

theorem parameterLoop_unrolls : parameterLoop.Unrolls := by
  refine Loop.collecting_unrolls fun n => ?_
  funext s
  simp only [moreParameters, nextParameter, bind_assoc,
    bind_peek]
  split <;> simp

theorem expressionLoop_unrolls :
    (expressionLoop expr).Unrolls := by
  refine Loop.collecting_unrolls fun n => ?_
  funext s
  simp only [moreExpressions, nextExpression, bind_assoc,
    bind_peek]
  split <;> simp

theorem pairLoop_unrolls : (pairLoop expr).Unrolls := by
  refine Loop.collecting_unrolls fun n => ?_
  have hComma :
      ∀ more : Parse (List (Node × Node)),
        (do
          if ← atPairsEnd then more
          else
            expect .comma
            more) =
          commaAfterPair >>= fun _ => more := by
    intro more
    funext s
    simp only [commaAfterPair, bind_assoc, bind_atPairsEnd]
    split <;> simp
  funext s
  simp only [hashPairs, nextPair, bind_assoc, bind_atPairsEnd]
  split
  · simp
  · simp [hComma]

theorem operatorLoop_unrolls
    (p : Precedence) :
    (operatorLoop expr p).Unrolls := by
  intro n left
  funext s
  simp only [operatorLoop, continuations, bind_assoc, bind_peek]
  split <;> simp

end

------------------------------------------------------------
-- Statements
------------------------------------------------------------

/- What rules ask of the parser for nested expressions: it ends
   where at most a number of tokens are left. -/
def EndsWithin
    (deep : Prop)
    (bound : Nat)
    (expr : Precedence → Parse Node) : Prop :=
  ∀ (p : Precedence) (s : TokenStream), s.EndAhead →
    s.pending.length ≤ bound →
      EndsBy deep s.pending.length (expr p) s

variable {expr : Precedence → Parse Node}

section

variable (hExpr : EndsWithin deep bound expr)

include hExpr

/- An expression that may have a semicolon after it. -/
theorem EndsWithin.optionalSemicolon
    {f : Node → Node}
    (hs : s.EndAhead)
    (hBound : s.pending.length ≤ bound)
    (hLength : s.pending.length ≤ n) :
    EndsBy deep n
      (do
        let value ← expr .lowest
        acceptOptional .semicolon
        return f value) s := by
  refine (hExpr _ s hs hBound).bind fun value t ht hLess => ?_
  refine EndsBy.bind (n := n)
    (.acceptOptional ht (by decide) (by omega)) ?_
  intro _ u hu hLess'
  exact .pure ⟨hu, hLess'⟩

theorem letStatement_ends
    (hs : s.EndAhead)
    (hBound : s.pending.length ≤ bound) :
    EndsBy deep s.pending.length (letStatement expr) s := by
  refine .here <| .want hs (by decide) fun _ h₁ hLess₁ =>
    .name fun id => .want h₁.toEndAhead (by decide)
      fun _ h₂ hLess₂ => .pass h₂ fun h₃ hLess₃ => ?_
  exact hExpr.optionalSemicolon h₃ (by omega) (by omega)

theorem returnStatement_ends
    (hs : s.AtToken)
    (hBound : s.pending.length ≤ bound) :
    EndsBy deep s.pending.length (returnStatement expr) s := by
  refine .here <| .look ?_
  split
  · next hKind =>
      refine .follow hs.toEndAhead (by rw [hKind]; decide) ?_
      exact fun h₁ hLess₁ => .pure ⟨h₁, by omega⟩
  · split
    · exact .pure ⟨hs, Nat.le_refl _⟩
    · split
      · exact .pure ⟨hs, Nat.le_refl _⟩
      · refine .pass hs fun h₁ hLess₁ => ?_
        exact hExpr.optionalSemicolon h₁ (by omega) (by omega)

theorem statement_ends
    (hs : s.EndAhead)
    (hBound : s.pending.length ≤ bound) :
    EndsBy deep s.pending.length (statement expr) s := by
  refine .here ?_
  split
  · exact letStatement_ends hExpr hs hBound
  · next hKind =>
      have hReal : s.current.kind ≠ .eof := by
        rw [hKind]
        decide
      exact returnStatement_ends hExpr ⟨hs, hReal⟩ hBound
  · exact .here
      (hExpr.optionalSemicolon hs hBound (Nat.le_refl _))

theorem statementPassed_arrives
    (hs : s.EndAhead)
    (hBound : s.pending.length ≤ bound) :
    Arrives deep
      (fun _ t =>
        t.EndAhead ∧ t.pending.length < s.pending.length)
      (statementPassed expr) s :=
  (statement_ends hExpr hs hBound).bind fun _ t ht hLess =>
    .pass ht fun hu hLess' => .pure ⟨hu, by omega⟩

theorem programLoop_roundsArrive :
    (programLoop expr).RoundsArrive deep bound := by
  refine Loop.collecting_roundsArrive fun s hs hBound => ?_
  refine .here ?_
  split
  · exact .pure rfl
  · next hReal =>
      refine (statementPassed_arrives hExpr hs hBound).bind ?_
      rintro ss t ⟨ht, hLess⟩
      exact .pure ⟨hReal, ht, nofun, hLess⟩

theorem blockLoop_roundsArrive :
    (blockLoop expr).RoundsArrive deep bound := by
  refine Loop.collecting_roundsArrive fun s hs hBound => ?_
  refine .here ?_
  split
  · exact .pure rfl
  · split
    · exact .fail
    · next hReal =>
        refine (statementPassed_arrives hExpr hs hBound).bind ?_
        rintro ss t ⟨ht, hLess⟩
        exact .pure ⟨hReal, ht, nofun, hLess⟩

omit hExpr in
/- Where the rounds of a block are over, there is a closing
   brace. -/
theorem blockLoop_over
    {ss : List Node}
    (h : (blockLoop expr).round ss s = .ok none t) :
    s.current.kind = .rbrace := by
  by_cases hBrace : s.current.kind = .rbrace
  · exact hBrace
  · simp only [blockLoop, Loop.collecting, nextInBlock,
      bind_assoc, bind_current, hBrace, if_false] at h
    split at h
    · cases h
    · simp only [bind_eq_ok, pure_eq_ok] at h
      rcases h with ⟨_, _, ⟨_, _, -, rfl, rfl⟩, ⟨⟩, -⟩

theorem block_ends
    (hs : s.AtToken)
    (hBound : s.pending.length ≤ bound + 1) :
    EndsBy deep s.pending.length (block expr) s := by
  refine .here <| .pass hs fun h₁ hLess₁ =>
    .count fun n hEnough => ?_
  have hLoop :=
    Loop.read_arrives (blockLoop_unrolls expr)
      (blockLoop_roundsArrive hExpr) [] h₁ (by omega) hEnough
  rw [blockLoop, Loop.collecting_read_nil] at hLoop
  refine hLoop.bind ?_
  rintro ss t ⟨ht, hLength, -, _, hOver⟩
  have hBrace : t.current.kind = .rbrace :=
    @blockLoop_over t t expr _ hOver
  exact .pure
    ⟨⟨ht, by rw [hBrace]; decide⟩, by omega⟩

------------------------------------------------------------
-- Lists of Names and Expressions
------------------------------------------------------------

omit hExpr in
theorem parameterLoop_roundsArrive :
    parameterLoop.RoundsArrive deep bound := by
  refine Loop.collecting_roundsArrive fun s hs hBound => ?_
  refine .look ?_
  split
  · next hComma =>
      have hReal : s.peek.kind ≠ .eof := by
        rw [hComma]
        decide
      exact .follow hs hReal fun h₁ hLess₁ =>
        .want h₁.toEndAhead (by decide) fun _ h₂ hLess₂ =>
          .name fun id => .pure
            ⟨hReal, h₂.toEndAhead, fun _ => h₂, by omega⟩
  · exact .pure rfl

omit hExpr in
theorem parameters_ends
    (hs : s.AtToken) :
    EndsBy deep s.pending.length parameters s := by
  refine .look ?_
  split
  · next hKind =>
      refine .follow hs.toEndAhead (by rw [hKind]; decide) ?_
      exact fun h₁ hLess₁ => .pure ⟨h₁, by omega⟩
  · refine .want hs.toEndAhead (by decide) fun _ h₁ hLess₁ =>
      .name fun id => .count fun n hEnough => ?_
    have hRounds : ∀ bound, parameterLoop.RoundsArrive deep bound :=
      fun _ => parameterLoop_roundsArrive
    have hLoop :=
      Loop.read_ends rfl parameterLoop_unrolls (hRounds _) [] h₁
        (Nat.le_refl _) hEnough
    rw [parameterLoop, Loop.collecting_read_nil] at hLoop
    exact hLoop.bind fun more t ht hLength =>
      .want ht.toEndAhead (by decide) fun _ h₂ hLess₂ =>
        .pure ⟨h₂, by omega⟩

theorem expressionLoop_roundsArrive :
    (expressionLoop expr).RoundsArrive deep (bound + 1) := by
  refine Loop.collecting_roundsArrive fun s hs hBound => ?_
  refine .look ?_
  split
  · next hComma =>
      have hReal : s.peek.kind ≠ .eof := by
        rw [hComma]
        decide
      exact .follow hs hReal fun h₁ hLess₁ =>
        .pass h₁ fun h₂ hLess₂ =>
          (hExpr _ _ h₂ (by omega)).bind fun e t ht hLength =>
            .pure
              ⟨hReal, ht.toEndAhead, fun _ => ht, by omega⟩
  · exact .pure rfl

theorem expressionList_ends
    {close : TokenKind}
    (hClose : close ≠ .eof)
    (hs : s.AtToken)
    (hBound : s.pending.length ≤ bound + 1) :
    EndsBy deep s.pending.length (expressionList expr close)
      s := by
  refine .look ?_
  split
  · next hKind =>
      refine .follow hs.toEndAhead (by rw [hKind]; exact hClose)
        ?_
      exact fun h₁ hLess₁ => .pure ⟨h₁, by omega⟩
  · refine .pass hs fun h₁ hLess₁ => ?_
    refine (hExpr _ _ h₁ (by omega)).bind
      fun first t ht hLength => .count fun n hEnough => ?_
    have hLoop :=
      Loop.read_ends rfl (expressionLoop_unrolls expr)
        (expressionLoop_roundsArrive hExpr) [] ht (by omega)
        hEnough
    rw [expressionLoop, Loop.collecting_read_nil] at hLoop
    exact hLoop.bind fun more u hu hLength' =>
      .want hu.toEndAhead hClose fun _ h₂ hLess₂ =>
        .pure ⟨h₂, by omega⟩

omit hExpr in
theorem commaAfterPair_ends
    (hs : s.AtToken) :
    EndsBy deep s.pending.length commaAfterPair s := by
  refine .pairsEnd fun b _ => ?_
  cases b with
  | true => exact .pure ⟨hs, Nat.le_refl _⟩
  | false =>
      refine Arrives.expect.mono id ?_
      rintro _ _ ⟨hComma, rfl⟩
      have hAdvance :=
        hs.toEndAhead.advance (by rw [hComma]; decide)
      exact ⟨hAdvance.1, Nat.le_of_lt hAdvance.2⟩

theorem pairLoop_roundsArrive :
    (pairLoop expr).RoundsArrive deep (bound + 1) := by
  refine Loop.collecting_roundsArrive fun s hs hBound => ?_
  refine .pairsEnd fun atEnd hAtEnd => ?_
  cases atEnd with
  | true => exact .pure rfl
  | false =>
      have hReal : s.peek.kind ≠ .eof := by
        intro hEof
        simp [hEof] at hAtEnd
      refine .follow hs hReal fun h₁ hLess₁ => ?_
      refine (hExpr _ _ h₁.toEndAhead (by omega)).bind
        fun key t ht hLength => ?_
      refine .want ht.toEndAhead (by decide)
        fun _ h₂ hLess₂ => .pass h₂ fun h₃ hLess₃ => ?_
      refine (hExpr _ _ h₃ (by omega)).bind
        fun value u hu hLength' => ?_
      exact (commaAfterPair_ends hu).bind
        fun _ v hv hLength'' => .pure
          ⟨hReal, hv.toEndAhead, fun _ => hv, by omega⟩

------------------------------------------------------------
-- First Parts
------------------------------------------------------------

theorem prefixExpression_ends
    (hs : s.AtToken)
    (hBound : s.pending.length ≤ bound + 1) :
    EndsBy deep s.pending.length (prefixExpression expr) s := by
  refine .here <| .pass hs fun h₁ hLess₁ => ?_
  exact (hExpr _ _ h₁ (by omega)).bind fun right t ht hLength =>
    .pure ⟨ht, by omega⟩

theorem groupedExpression_ends
    (hs : s.AtToken)
    (hBound : s.pending.length ≤ bound + 1) :
    EndsBy deep s.pending.length (groupedExpression expr)
      s := by
  refine .pass hs fun h₁ hLess₁ => ?_
  exact (hExpr _ _ h₁ (by omega)).bind fun inner t ht hLength =>
    .want ht.toEndAhead (by decide) fun _ h₂ hLess₂ =>
      .pure ⟨h₂, by omega⟩

theorem alternative_ends
    (hs : s.AtToken)
    (hBound : s.pending.length ≤ bound + 1) :
    EndsBy deep s.pending.length (alternative expr) s := by
  refine .look ?_
  split
  · next hKind =>
      refine .follow hs.toEndAhead (by rw [hKind]; decide)
        fun h₁ hLess₁ => ?_
      refine .want h₁.toEndAhead (by decide)
        fun _ h₂ hLess₂ => ?_
      exact (block_ends hExpr h₂ (by omega)).bind
        fun branch t ht hLength => .pure ⟨ht, by omega⟩
  · exact .pure ⟨hs, Nat.le_refl _⟩

theorem ifExpression_ends
    (hs : s.AtToken)
    (hBound : s.pending.length ≤ bound + 1) :
    EndsBy deep s.pending.length (ifExpression expr) s := by
  refine .here <| .want hs.toEndAhead (by decide)
    fun _ h₁ hLess₁ => .pass h₁ fun h₂ hLess₂ => ?_
  refine (hExpr _ _ h₂ (by omega)).bind
    fun condition t ht hLength => ?_
  refine .want ht.toEndAhead (by decide) fun _ h₃ hLess₃ =>
    .want h₃.toEndAhead (by decide) fun _ h₄ hLess₄ => ?_
  refine (block_ends hExpr h₄ (by omega)).bind
    fun consequence u hu hLength' => ?_
  exact (alternative_ends hExpr hu (by omega)).bind
    fun otherwise v hv hLength'' => .pure ⟨hv, by omega⟩

theorem functionLiteral_ends
    (hs : s.AtToken)
    (hBound : s.pending.length ≤ bound + 1) :
    EndsBy deep s.pending.length (functionLiteral expr) s := by
  refine .here <| .want hs.toEndAhead (by decide)
    fun _ h₁ hLess₁ => ?_
  refine (parameters_ends h₁).bind fun params t ht hLength => ?_
  refine .want ht.toEndAhead (by decide) fun _ h₂ hLess₂ => ?_
  exact (block_ends hExpr h₂ (by omega)).bind
    fun body u hu hLength' => .pure ⟨hu, by omega⟩

theorem hashLiteral_ends
    (hs : s.AtToken)
    (hBound : s.pending.length ≤ bound + 1) :
    EndsBy deep s.pending.length (hashLiteral expr) s := by
  refine .here <| .count fun n hEnough => ?_
  have hLoop :=
    Loop.read_ends rfl (pairLoop_unrolls expr)
      (pairLoop_roundsArrive hExpr) [] hs hBound hEnough
  rw [pairLoop, Loop.collecting_read_nil] at hLoop
  exact hLoop.bind fun pairs t ht hLength =>
    .want ht.toEndAhead (by decide) fun _ h₁ hLess₁ =>
      .pure ⟨h₁, by omega⟩

theorem firstPart_ends
    (hs : s.EndAhead)
    (hBound : s.pending.length ≤ bound + 1) :
    EndsBy deep s.pending.length (firstPart expr) s := by
  refine .here ?_
  by_cases hEof : s.current.kind = .eof
  · rw [hEof]
    exact .fail
  · have hReal : s.AtToken := ⟨hs, hEof⟩
    have hLeaf :
        ∀ e : Node,
          EndsBy deep s.pending.length (pure e) s :=
      fun e => .pure ⟨hReal, Nat.le_refl _⟩
    split
    · exact hLeaf _
    · refine .here ?_
      split
      · exact hLeaf _
      · exact .fail
    · exact hLeaf _
    · exact hLeaf _
    · exact hLeaf _
    · exact prefixExpression_ends hExpr hReal hBound
    · exact prefixExpression_ends hExpr hReal hBound
    · exact groupedExpression_ends hExpr hReal hBound
    · exact ifExpression_ends hExpr hReal hBound
    · exact functionLiteral_ends hExpr hReal hBound
    · exact .here <|
        (expressionList_ends hExpr (by decide) hReal hBound).bind
          fun elements t ht hLength => .pure ⟨ht, hLength⟩
    · exact hashLiteral_ends hExpr hReal hBound
    · exact .fail

------------------------------------------------------------
-- Expressions
------------------------------------------------------------

theorem continuation_ends
    (left : Node)
    (hs : s.AtToken)
    (hBound : s.pending.length ≤ bound + 1) :
    EndsBy deep s.pending.length (continuation expr left)
      s := by
  refine .here ?_
  split
  · exact .here <|
      (expressionList_ends hExpr (by decide) hs hBound).bind
        fun args t ht hLength => .pure ⟨ht, hLength⟩
  · refine .here <| .pass hs fun h₁ hLess₁ => ?_
    exact (hExpr _ _ h₁ (by omega)).bind
      fun subscript t ht hLength =>
        .want ht.toEndAhead (by decide) fun _ h₂ hLess₂ =>
          .pure ⟨h₂, by omega⟩
  · refine .here <| .pass hs fun h₁ hLess₁ => ?_
    exact (hExpr _ _ h₁ (by omega)).bind
      fun right t ht hLength => .pure ⟨ht, by omega⟩

theorem operatorLoop_roundsArrive
    (p : Precedence) :
    (operatorLoop expr p).RoundsArrive deep (bound + 1) := by
  intro left s hs hBound
  refine .look ?_
  split
  · next hBinds =>
      have hReal : s.peek.kind ≠ .eof := by
        intro hEof
        rw [hEof] at hBinds
        cases p <;> exact absurd hBinds (by decide)
      exact .follow hs hReal fun h₁ hLess₁ =>
        (continuation_ends hExpr left h₁ (by omega)).bind
          fun extended t ht hLength => .pure
            ⟨hReal, ht.toEndAhead, fun _ => ht, by omega⟩
  · exact .pure rfl

theorem expressionStep_ends
    (p : Precedence)
    (hs : s.EndAhead)
    (hBound : s.pending.length ≤ bound + 1) :
    EndsBy deep s.pending.length (expressionStep expr p) s := by
  refine (firstPart_ends hExpr hs hBound).bind
    fun left t ht hLength => .count fun n hEnough => ?_
  have hLoop :
      EndsBy deep t.pending.length (continuations expr p n left)
        t :=
    Loop.read_ends rfl (operatorLoop_unrolls expr p)
      (operatorLoop_roundsArrive hExpr p) left ht (by omega)
      hEnough
  exact Arrives.mono hLoop id
    fun _ u hu => ⟨hu.1, Nat.le_trans hu.2 hLength⟩

end

/- As many levels of nesting as there are tokens left are
   enough: nested expressions have passed one. -/
theorem expression_ends
    {depth : Nat}
    (p : Precedence)
    (hs : s.EndAhead) :
    EndsBy (depth < s.pending.length) s.pending.length
      (expression depth p) s := by
  induction depth generalizing p s with
  | zero => exact hs.length_pos
  | succ depth ih =>
      have hNested :
          EndsWithin (depth + 1 < s.pending.length)
            (s.pending.length - 1) (expression depth) := by
        intro q t ht hLess
        exact Arrives.mono (ih q ht) (fun _ => by omega)
          fun _ _ h => h
      exact expressionStep_ends hNested p hs (by omega)

end Parse

------------------------------------------------------------
-- Texts
------------------------------------------------------------

/- With as many levels as there are tokens, a parse stops at an
   error or not at all. -/
theorem parseWithin_ne_tooDeep
    {limit : Nat}
    {source : String}
    (hLimit : (tokens source).length ≤ limit) :
    parseWithin limit source ≠ .error .tooDeep := by
  have hStart := TokenStream.endAhead_ofText source
  have hLength :
      (TokenStream.ofText source).pending.length ≤ limit :=
    hLimit
  have hNested :
      Parse.EndsWithin False
        (TokenStream.ofText source).pending.length
        (Parse.expression limit) := by
    intro p s hs hBound
    exact Parse.Arrives.mono (Parse.expression_ends p hs)
      (fun hDeep => by omega) fun _ _ h => h
  have hProgram :
      Parse.Arrives False (fun _ _ => True)
        (Parse.program (Parse.expression limit))
        (.ofText source) := by
    refine .count fun n hEnough => ?_
    have hLoop :=
      Parse.Loop.read_arrives (Parse.programLoop_unrolls _)
        (Parse.programLoop_roundsArrive hNested) [] hStart
        (Nat.le_refl _) hEnough
    rw [Parse.programLoop, Parse.Loop.collecting_read_nil]
      at hLoop
    exact hLoop.bind fun _ _ _ => .pure trivial
  unfold parseWithin
  unfold Parse.Arrives at hProgram
  split at hProgram
  · next hRun =>
      rw [hRun]
      exact nofun
  · exact hProgram.elim
  · next hRun =>
      rw [hRun]
      exact nofun

/- The loops end in themselves, whatever expressions do. -/
theorem Parse.loops_end
    (depth : Nat) :
    (programLoop (expression depth)).Ends ∧
      (blockLoop (expression depth)).Ends ∧
      parameterLoop.Ends ∧
      (expressionLoop (expression depth)).Ends ∧
      (pairLoop (expression depth)).Ends ∧
      ∀ p, (operatorLoop (expression depth) p).Ends := by
  have hExpr : ∀ bound, EndsWithin True bound (expression depth) :=
    fun _ p _ hs _ =>
      Arrives.mono (expression_ends p hs) (fun _ => trivial)
        fun _ _ h => h
  have hMore :
      ∀ {σ : Type} {loop : Loop σ},
        (∀ bound, loop.RoundsArrive True (bound + 1)) →
          ∀ bound, loop.RoundsArrive True bound :=
    fun h bound a s hs hBound =>
      h bound a s hs (Nat.le_succ_of_le hBound)
  refine ⟨?_, ?_, ?_, ?_, ?_, fun p => ?_⟩
  · exact Loop.ends_of_roundsArrive (programLoop_unrolls _)
      fun bound => programLoop_roundsArrive (hExpr bound)
  · exact Loop.ends_of_roundsArrive (blockLoop_unrolls _)
      fun bound => blockLoop_roundsArrive (hExpr bound)
  · exact Loop.ends_of_roundsArrive parameterLoop_unrolls
      fun _ => parameterLoop_roundsArrive
  · exact Loop.ends_of_roundsArrive (expressionLoop_unrolls _)
      (hMore fun bound =>
        expressionLoop_roundsArrive (hExpr bound))
  · exact Loop.ends_of_roundsArrive (pairLoop_unrolls _)
      (hMore fun bound => pairLoop_roundsArrive (hExpr bound))
  · exact Loop.ends_of_roundsArrive (operatorLoop_unrolls _ p)
      (hMore fun bound => operatorLoop_roundsArrive (hExpr bound) p)

/-
  Parsing ends on every text.  With as many levels of nested
  expressions as the text has tokens, it ends with a program or
  with an error; rules nest only through expressions, a fixed
  number of them to a level.  With fewer levels it does the same
  or stops for their number.  Every round of every loop passes a
  token before the end or is the last one, and so the loops end
  by themselves.
-/
theorem parsing_terminates
    (source : String) :
    (∀ limit, (tokens source).length ≤ limit →
      (∃ p, parseWithin limit source = .ok p) ∨
        ∃ e, parseWithin limit source = .error (.error e)) ∧
      (∀ limit,
        parseWithin limit source = .error .tooDeep ∨
          parseWithin limit source =
            parseWithin (tokens source).length source) ∧
      ∀ depth,
        (Parse.programLoop (Parse.expression depth)).Ends ∧
          (Parse.blockLoop (Parse.expression depth)).Ends ∧
          Parse.parameterLoop.Ends ∧
          (Parse.expressionLoop (Parse.expression depth)).Ends ∧
          (Parse.pairLoop (Parse.expression depth)).Ends ∧
          ∀ p,
            (Parse.operatorLoop (Parse.expression depth)
              p).Ends := by
  refine ⟨fun limit hLimit => ?_, fun limit => ?_,
    Parse.loops_end⟩
  · have hNotDeep := parseWithin_ne_tooDeep hLimit
    cases hResult : parseWithin limit source with
    | ok p => exact .inl ⟨p, rfl⟩
    | error failure =>
        cases failure with
        | error e => exact .inr ⟨e, rfl⟩
        | tooDeep => exact absurd hResult hNotDeep
  · by_cases hReached :
        parseWithin limit source = .error .tooDeep
    · exact .inl hReached
    · refine .inr ?_
      rcases Nat.le_total limit (tokens source).length with
        hLess | hMore
      · exact parseWithin_eq_of_le source hLess hReached
      · exact (parseWithin_eq_of_le source hMore
          (parseWithin_ne_tooDeep (Nat.le_refl _))).symm

/- A text that is cut off within a hash, and there within an
   array, is an error at the end of the text. -/
theorem parsing_terminates_cutOff :
    (tokens "\x7b1: [2").length ≤ 6 ∧
      ∃ e,
        parseWithin 6 "\x7b1: [2" = .error (.error e) ∧
          e.token = ⟨.eof, "", 1, 7⟩ := by
  have hTokens : (tokens "\x7b1: [2").length ≤ 6 := by
    decide
  refine ⟨hTokens, ?_⟩
  have hError :
      parseWithin 6 "\x7b1: [2" =
        .error (.error
          ⟨.unexpected .rbracket .eof, ⟨.eof, "", 1, 7⟩⟩) := by
    rfl
  rcases (parsing_terminates "\x7b1: [2").1 6 hTokens with
    ⟨p, hProgram⟩ | ⟨e, hFound⟩
  · rw [hError] at hProgram
    cases hProgram
  · refine ⟨e, hFound, ?_⟩
    rw [hError] at hFound
    cases hFound
    rfl

end Monkey
