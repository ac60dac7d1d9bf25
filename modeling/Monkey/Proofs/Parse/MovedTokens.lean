import Monkey.Proofs.Parse.Steps
import Monkey.Proofs.Syntax.Essence
import Monkey.Proofs.Token.Respelling

/-
  Parsing tokens in other places.

  A function that takes each token to one of the same kind and
  text may move the tokens of a stream.  The parser then does the
  same as before and gives the same tree, with its tokens moved.
  Where it fails, it does so for the same cause and at the same
  token, which has been moved as well.

  Main declarations:
    * `Parse.Moves`
    * `Parse.program_moves`
    * `parseWithin_moved`
    * `exists_move`
-/

namespace Monkey

------------------------------------------------------------
-- Moved Tokens
------------------------------------------------------------

variable {move : Token → Token}

/- A stream with each token moved. -/
def TokenStream.map
    (move : Token → Token)
    (s : TokenStream) :
    TokenStream where
  pending := s.pending.map move
  final := move s.final

namespace TokenStream

variable (s : TokenStream)

@[simp] theorem current_map :
    (s.map move).current = move s.current := by
  unfold map current
  cases s.pending <;> rfl

@[simp] theorem peek_map :
    (s.map move).peek = move s.peek := by
  unfold map peek
  rcases s.pending with _ | ⟨t, _ | ⟨u, rest⟩⟩ <;> rfl

@[simp] theorem advance_map :
    (s.map move).advance = s.advance.map move := by
  unfold map advance
  rw [List.map_tail]

end TokenStream

/- A name with its token moved. -/
def Identifier.moved
    (move : Token → Token)
    (id : Identifier) :
    Identifier :=
  { id with token := move id.token }

/- A tree with each token moved. -/
def Node.moved (move : Token → Token) : Node → Node :=
  Node.mapTokens move move

/- A pair of trees with each token moved. -/
def Node.movedPair
    (move : Token → Token)
    (p : Node × Node) :
    Node × Node :=
  (p.1.moved move, p.2.moved move)

section

variable (t : Token)
variable (ns : List Node)

@[simp] theorem Node.moved_block :
    (block t ns).moved move =
      block (move t) (ns.map (Node.moved move)) := by
  simp [moved, mapTokens, mapTokensList_eq_map]

@[simp] theorem Node.moved_program :
    (program ns).moved move =
      program (ns.map (Node.moved move)) := by
  simp [moved, mapTokens, mapTokensList_eq_map]

@[simp] theorem Node.moved_array :
    (array t ns).moved move =
      array (move t) (ns.map (Node.moved move)) := by
  simp [moved, mapTokens, mapTokensList_eq_map]

@[simp] theorem Node.moved_call
    (callee : Node) :
    (call t callee ns).moved move =
      call (move t) (callee.moved move)
        (ns.map (Node.moved move)) := by
  simp [moved, mapTokens, mapTokensList_eq_map]

@[simp] theorem Node.moved_hash
    (ps : List (Node × Node)) :
    (hash t ps).moved move =
      hash (move t) (ps.map (Node.movedPair move)) := by
  simp [moved, mapTokens, mapTokensPairs_eq_map, movedPair]

@[simp] theorem Node.moved_ifElse
    (condition consequence : Node)
    (alternative : Option Node) :
    (ifElse t condition consequence alternative).moved move =
      ifElse (move t) (condition.moved move)
        (consequence.moved move)
        (alternative.map (Node.moved move)) := by
  simp [moved]

@[simp] theorem Node.moved_function
    (params : List Identifier)
    (body : Node) :
    (function t params body).moved move =
      function (move t) (params.map (Identifier.moved move))
        (body.moved move) := by
  simp [moved, mapTokens, Identifier.moved]

end

/- The same error at the moved token. -/
def ParseError.moved
    (move : Token → Token)
    (e : ParseError) :
    ParseError :=
  { e with token := move e.token }

/- The same failure, at the moved token if it is an error. -/
def ParseFailure.moved
    (move : Token → Token) :
    ParseFailure → ParseFailure
  | error e => .error (e.moved move)
  | tooDeep => .tooDeep

namespace Parse

variable {α β : Type}

/- The result of a parse with everything moved. -/
def movedResult
    (move : Token → Token)
    (onValue : α → β) :
    EStateM.Result ParseFailure TokenStream α →
      EStateM.Result ParseFailure TokenStream β
  | .ok a s => .ok (onValue a) (s.map move)
  | .error e s => .error (e.moved move) (s.map move)

/- On a moved stream the second parser gives what the first one
   gives on the stream itself, but moved. -/
def Moves
    (move : Token → Token)
    (onValue : α → β)
    (x : Parse α)
    (y : Parse β) : Prop :=
  ∀ s, y (s.map move) = movedResult move onValue (x s)

namespace Moves

variable {γ δ : Type}
variable {onValue : α → β}
variable {onNext : γ → δ}

------------------------------------------------------------
-- Combining Parsers
------------------------------------------------------------

theorem pure
    {a : α}
    {b : β}
    (h : b = onValue a) :
    Moves move onValue (Pure.pure a) (Pure.pure b) := by
  intro s
  rw [h]
  rfl

theorem tooDeep :
    Moves move onValue (throw .tooDeep) (throw .tooDeep) :=
  fun _ => rfl

theorem fail
    {cause : ParseError.Cause}
    {t : Token} :
    Moves move onValue (Parse.fail cause t)
      (Parse.fail cause (move t)) :=
  fun _ => rfl

theorem bind
    {x : Parse α}
    {y : Parse β}
    {f : α → Parse γ}
    {g : β → Parse δ}
    (h : Moves move onValue x y)
    (hNext : ∀ a, Moves move onNext (f a) (g (onValue a))) :
    Moves move onNext (x >>= f) (y >>= g) := by
  intro s
  rw [bind_apply, bind_apply, h s]
  cases x s with
  | ok a t => exact hNext a t
  | error e t => rfl

theorem ite
    {c c' : Prop}
    [Decidable c]
    [Decidable c']
    {x x' : Parse α}
    {y y' : Parse β}
    (hCondition : c ↔ c')
    (hThen : Moves move onValue x y)
    (hElse : Moves move onValue x' y') :
    Moves move onValue (if c then x else x')
      (if c' then y else y') := by
  by_cases hc : c
  · rw [if_pos hc, if_pos (hCondition.mp hc)]
    exact hThen
  · rw [if_neg hc, if_neg fun h => hc (hCondition.mpr h)]
    exact hElse

------------------------------------------------------------
-- Steps
------------------------------------------------------------

/- Go on with the current token. -/
theorem here
    {f : Token → Parse γ}
    {g : Token → Parse δ}
    (hNext : ∀ t, Moves move onNext (f t) (g (move t))) :
    Moves move onNext (current >>= f) (current >>= g) := by
  intro s
  rw [bind_current, bind_current, TokenStream.current_map]
  exact hNext s.current s

/- Go on after looking at the next token. -/
theorem look
    {f : Token → Parse γ}
    {g : Token → Parse δ}
    (hNext : ∀ t, Moves move onNext (f t) (g (move t))) :
    Moves move onNext (peek >>= f) (peek >>= g) := by
  intro s
  rw [bind_peek, bind_peek, TokenStream.peek_map]
  exact hNext s.peek s

theorem advance :
    Moves move id Parse.advance Parse.advance := by
  intro s
  change EStateM.Result.ok () (s.map move).advance = _
  rw [TokenStream.advance_map]
  rfl

/- Go on after passing a token. -/
theorem pass
    {f : Unit → Parse γ}
    {g : Unit → Parse δ}
    (hNext : Moves move onNext (f ()) (g ())) :
    Moves move onNext (Parse.advance >>= f)
      (Parse.advance >>= g) :=
  advance.bind fun _ => hNext

/- Go on with the number of rounds, which is the same. -/
theorem count
    {f : Nat → Parse γ}
    {g : Nat → Parse δ}
    (hNext : ∀ n, Moves move onNext (f n) (g n)) :
    Moves move onNext (rounds >>= f) (rounds >>= g) := by
  intro s
  have hLength :
      (s.map move).pending.length = s.pending.length :=
    List.length_map _
  rw [bind_rounds, bind_rounds, hLength]
  exact hNext _ s

end Moves

variable (hMove : ∀ t : Token, t.Alike (move t))

include hMove

theorem expect_moves
    (kind : TokenKind) :
    Moves move id (expect kind) (expect kind) := by
  refine .look fun t => ?_
  rw [← (hMove t).1]
  exact .ite .rfl .advance .fail

/- Go on after a token of a certain kind. -/
theorem Moves.want
    {γ δ : Type}
    {onNext : γ → δ}
    {kind : TokenKind}
    {f : Unit → Parse γ}
    {g : Unit → Parse δ}
    (hNext : Moves move onNext (f ()) (g ())) :
    Moves move onNext (expect kind >>= f)
      (expect kind >>= g) :=
  (expect_moves hMove kind).bind fun _ => hNext

theorem acceptOptional_moves
    (kind : TokenKind) :
    Moves move id (acceptOptional kind)
      (acceptOptional kind) := by
  refine .look fun t => ?_
  rw [← (hMove t).1]
  exact .ite .rfl .advance (.pure rfl)

theorem atPairsEnd_moves :
    Moves move id atPairsEnd atPairsEnd := by
  refine .look fun t => ?_
  rw [← (hMove t).1]
  exact .pure rfl

------------------------------------------------------------
-- Names and Numbers
------------------------------------------------------------

theorem identifierHere_moves :
    Moves move (Identifier.moved move) identifierHere
      identifierHere := by
  refine .here fun t => .pure ?_
  rw [← (hMove t).2]
  rfl

theorem moreParameters_moves
    (n : Nat) :
    Moves move (List.map (Identifier.moved move))
      (moreParameters n) (moreParameters n) := by
  induction n with
  | zero => exact .tooDeep
  | succ n ih =>
      refine .look fun t => ?_
      rw [← (hMove t).1]
      refine .ite .rfl (.pass (.want hMove ?_)) (.pure rfl)
      exact (identifierHere_moves hMove).bind fun _ =>
        ih.bind fun _ => .pure rfl

theorem parameters_moves :
    Moves move (List.map (Identifier.moved move)) parameters
      parameters := by
  refine .look fun t => ?_
  rw [← (hMove t).1]
  refine .ite .rfl (.pass (.pure rfl)) (.want hMove ?_)
  exact (identifierHere_moves hMove).bind fun _ =>
    .count fun n => (moreParameters_moves hMove n).bind fun _ =>
      .want hMove (.pure rfl)

theorem integerLiteral_moves :
    Moves move (Node.moved move) integerLiteral
      integerLiteral := by
  refine .here fun t => ?_
  rw [← (hMove t).2]
  cases readInteger? t.literal with
  | some n => exact .pure rfl
  | none => exact .fail

------------------------------------------------------------
-- Statements
------------------------------------------------------------

variable {expr : Precedence → Parse Node}
variable
  (hExpr : ∀ p, Moves move (Node.moved move) (expr p) (expr p))

include hExpr

theorem letStatement_moves :
    Moves move (Node.moved move) (letStatement expr)
      (letStatement expr) :=
  .here fun _ => .want hMove
    ((identifierHere_moves hMove).bind fun _ => .want hMove
      (.pass ((hExpr _).bind fun _ =>
        (acceptOptional_moves hMove _).bind fun _ => .pure rfl)))

theorem returnStatement_moves :
    Moves move (Node.moved move) (returnStatement expr)
      (returnStatement expr) := by
  refine .here fun _ => .look fun t => ?_
  rw [← (hMove t).1]
  refine .ite .rfl (.pass (.pure rfl)) (.ite .rfl (.pure rfl)
    (.ite .rfl (.pure rfl) (.pass ?_)))
  exact (hExpr _).bind fun _ =>
    (acceptOptional_moves hMove _).bind fun _ => .pure rfl

theorem statement_moves :
    Moves move (Node.moved move) (statement expr)
      (statement expr) := by
  refine .here fun t => ?_
  rw [← (hMove t).1]
  split
  · exact letStatement_moves hMove hExpr
  · exact returnStatement_moves hMove hExpr
  · exact .here fun _ => (hExpr _).bind fun _ =>
      (acceptOptional_moves hMove _).bind fun _ => .pure rfl

/- One statement and those after it. -/
theorem consStatement_moves
    {more : Parse (List Node)}
    (hMore :
      Moves move (List.map (Node.moved move)) more more) :
    Moves move (List.map (Node.moved move))
      (do
        let first ← statement expr
        advance
        let others ← more
        return first :: others)
      (do
        let first ← statement expr
        advance
        let others ← more
        return first :: others) :=
  (statement_moves hMove hExpr).bind fun _ =>
    .pass (hMore.bind fun _ => .pure rfl)

theorem blockStatements_moves
    (n : Nat) :
    Moves move (List.map (Node.moved move))
      (blockStatements expr n) (blockStatements expr n) := by
  induction n with
  | zero => exact .tooDeep
  | succ n ih =>
      refine .here fun t => ?_
      rw [← (hMove t).1]
      exact .ite .rfl (.pure rfl)
        (.ite .rfl .fail (consStatement_moves hMove hExpr ih))

theorem programStatements_moves
    (n : Nat) :
    Moves move (List.map (Node.moved move))
      (programStatements expr n)
      (programStatements expr n) := by
  induction n with
  | zero => exact .tooDeep
  | succ n ih =>
      refine .here fun t => ?_
      rw [← (hMove t).1]
      exact .ite .rfl (.pure rfl)
        (consStatement_moves hMove hExpr ih)

theorem block_moves :
    Moves move (Node.moved move) (block expr) (block expr) :=
  .here fun _ => .pass (.count fun n =>
    (blockStatements_moves hMove hExpr n).bind fun _ =>
      .pure (by simp))

theorem program_moves :
    Moves move (Node.moved move) (program expr) (program expr) :=
  .count fun n =>
    (programStatements_moves hMove hExpr n).bind fun _ =>
      .pure (by simp)

------------------------------------------------------------
-- Lists of Expressions
------------------------------------------------------------

theorem moreExpressions_moves
    (n : Nat) :
    Moves move (List.map (Node.moved move))
      (moreExpressions expr n) (moreExpressions expr n) := by
  induction n with
  | zero => exact .tooDeep
  | succ n ih =>
      refine .look fun t => ?_
      rw [← (hMove t).1]
      exact .ite .rfl
        (.pass (.pass ((hExpr _).bind fun _ =>
          ih.bind fun _ => .pure rfl)))
        (.pure rfl)

theorem expressionList_moves
    (close : TokenKind) :
    Moves move (List.map (Node.moved move))
      (expressionList expr close)
      (expressionList expr close) := by
  refine .look fun t => ?_
  rw [← (hMove t).1]
  refine .ite .rfl (.pass (.pure rfl)) (.pass ?_)
  exact (hExpr _).bind fun _ => .count fun n =>
    (moreExpressions_moves hMove hExpr n).bind fun _ =>
      .want hMove (.pure rfl)

theorem hashPairs_moves
    (n : Nat) :
    Moves move (List.map (Node.movedPair move))
      (hashPairs expr n) (hashPairs expr n) := by
  induction n with
  | zero => exact .tooDeep
  | succ n ih =>
      refine (atPairsEnd_moves hMove).bind fun _ =>
        .ite .rfl (.pure rfl) (.pass ?_)
      refine (hExpr _).bind fun _ => .want hMove (.pass ?_)
      refine (hExpr _).bind fun _ =>
        (atPairsEnd_moves hMove).bind fun _ => ?_
      exact .ite .rfl (ih.bind fun _ => .pure rfl)
        (.want hMove (ih.bind fun _ => .pure rfl))

------------------------------------------------------------
-- First Parts of Expressions
------------------------------------------------------------

theorem alternative_moves :
    Moves move (Option.map (Node.moved move))
      (alternative expr) (alternative expr) := by
  refine .look fun t => ?_
  rw [← (hMove t).1]
  exact .ite .rfl
    (.pass (.want hMove
      ((block_moves hMove hExpr).bind fun _ => .pure rfl)))
    (.pure rfl)

theorem ifExpression_moves :
    Moves move (Node.moved move) (ifExpression expr)
      (ifExpression expr) := by
  refine .here fun _ => .want hMove (.pass ?_)
  refine (hExpr _).bind fun _ => .want hMove (.want hMove ?_)
  refine (block_moves hMove hExpr).bind fun _ => ?_
  exact (alternative_moves hMove hExpr).bind fun _ =>
    .pure (by simp)

theorem functionLiteral_moves :
    Moves move (Node.moved move) (functionLiteral expr)
      (functionLiteral expr) := by
  refine .here fun _ => .want hMove ?_
  refine (parameters_moves hMove).bind fun _ => .want hMove ?_
  exact (block_moves hMove hExpr).bind fun _ => .pure (by simp)

theorem prefixExpression_moves :
    Moves move (Node.moved move) (prefixExpression expr)
      (prefixExpression expr) := by
  refine .here fun t => .pass ?_
  rw [← (hMove t).2]
  exact (hExpr _).bind fun _ => .pure rfl

theorem groupedExpression_moves :
    Moves move (Node.moved move) (groupedExpression expr)
      (groupedExpression expr) :=
  .pass ((hExpr _).bind fun _ => .want hMove (.pure rfl))

theorem arrayLiteral_moves :
    Moves move (Node.moved move) (arrayLiteral expr)
      (arrayLiteral expr) :=
  .here fun _ => (expressionList_moves hMove hExpr _).bind
    fun _ => .pure (by simp)

theorem hashLiteral_moves :
    Moves move (Node.moved move) (hashLiteral expr)
      (hashLiteral expr) :=
  .here fun _ => .count fun n =>
    (hashPairs_moves hMove hExpr n).bind fun _ =>
      .want hMove (.pure (by simp))

theorem firstPart_moves :
    Moves move (Node.moved move) (firstPart expr)
      (firstPart expr) := by
  refine .here fun t => ?_
  rw [← (hMove t).1, ← (hMove t).2]
  split
  · exact .pure rfl
  · exact integerLiteral_moves hMove
  · exact .pure rfl
  · exact .pure rfl
  · exact .pure rfl
  · exact prefixExpression_moves hMove hExpr
  · exact prefixExpression_moves hMove hExpr
  · exact groupedExpression_moves hMove hExpr
  · exact ifExpression_moves hMove hExpr
  · exact functionLiteral_moves hMove hExpr
  · exact arrayLiteral_moves hMove hExpr
  · exact hashLiteral_moves hMove hExpr
  · exact .fail

------------------------------------------------------------
-- Operators, Calls, and Indexings
------------------------------------------------------------

theorem infixExpression_moves
    (left : Node) :
    Moves move (Node.moved move) (infixExpression expr left)
      (infixExpression expr (left.moved move)) := by
  refine .here fun t => .pass ?_
  rw [← (hMove t).1, ← (hMove t).2]
  exact (hExpr _).bind fun _ => .pure rfl

theorem callExpression_moves
    (callee : Node) :
    Moves move (Node.moved move) (callExpression expr callee)
      (callExpression expr (callee.moved move)) :=
  .here fun _ => (expressionList_moves hMove hExpr _).bind
    fun _ => .pure (by simp)

theorem indexExpression_moves
    (left : Node) :
    Moves move (Node.moved move) (indexExpression expr left)
      (indexExpression expr (left.moved move)) :=
  .here fun _ => .pass ((hExpr _).bind fun _ =>
    .want hMove (.pure rfl))

theorem continuation_moves
    (left : Node) :
    Moves move (Node.moved move) (continuation expr left)
      (continuation expr (left.moved move)) := by
  refine .here fun t => ?_
  rw [← (hMove t).1]
  split
  · exact callExpression_moves hMove hExpr left
  · exact indexExpression_moves hMove hExpr left
  · exact infixExpression_moves hMove hExpr left

theorem continuations_moves
    (p : Precedence)
    (n : Nat)
    (left : Node) :
    Moves move (Node.moved move) (continuations expr p n left)
      (continuations expr p n (left.moved move)) := by
  induction n generalizing left with
  | zero => exact .tooDeep
  | succ n ih =>
      refine .look fun t => ?_
      rw [← (hMove t).1]
      exact .ite .rfl
        (.pass ((continuation_moves hMove hExpr left).bind
          fun extended => ih extended))
        (.pure rfl)

------------------------------------------------------------
-- Expressions and Programs
------------------------------------------------------------

theorem expressionStep_moves
    (p : Precedence) :
    Moves move (Node.moved move) (expressionStep expr p)
      (expressionStep expr p) :=
  (firstPart_moves hMove hExpr).bind fun left => .count fun n =>
    continuations_moves hMove hExpr p n left

omit hExpr

/- An expression of any depth, by one level at a time. -/
theorem expression_moves
    (depth : Nat)
    (p : Precedence) :
    Moves move (Node.moved move) (expression depth p)
      (expression depth p) := by
  induction depth generalizing p with
  | zero => exact .tooDeep
  | succ depth ih => exact expressionStep_moves hMove ih p

end Parse

------------------------------------------------------------
-- Texts
------------------------------------------------------------

variable {source source' : String}

/- The tokens of a text are moved, and so is the stream of
   them. -/
theorem TokenStream.ofText_map
    (h : tokens source' = (tokens source).map move) :
    TokenStream.ofText source' =
      (TokenStream.ofText source).map move := by
  rcases TokenStream.ofText_eq source with ⟨stop, hStream, -, -⟩
  have hTokens : tokens source = bodyTokens source ++ [stop] :=
    congrArg TokenStream.pending hStream
  have hFinal :
      (tokens source').getLastD ⟨.eof, "", 1, 1⟩ =
        move stop := by
    rw [h, hTokens]
    simp
  rw [hStream]
  exact congrArg₂ mk (by rw [h, hTokens]) hFinal

/- What a parse gives, with everything moved. -/
def movedOutcome
    (move : Token → Token) :
    Except ParseFailure Node → Except ParseFailure Node
  | .ok p => .ok (p.moved move)
  | .error f => .error (f.moved move)

/- A text whose tokens are those of another one, but moved, is
   parsed like that one. -/
theorem parseWithin_moved
    (limit : Nat)
    (hMove : ∀ t : Token, t.Alike (move t))
    (h : tokens source' = (tokens source).map move) :
    parseWithin limit source' =
      movedOutcome move (parseWithin limit source) := by
  have hProgram :=
    Parse.program_moves hMove
      (Parse.expression_moves hMove limit) (.ofText source)
  unfold parseWithin
  rw [TokenStream.ofText_map h, hProgram]
  cases Parse.program (Parse.expression limit)
    (.ofText source) <;> rfl

/- Trees with moved tokens differ in places only. -/
theorem Node.unplaced_moved
    (hMove : ∀ t : Token, t.Alike (move t))
    (n : Node) :
    (n.moved move).unplaced = n.unplaced := by
  have hToken : Token.unplaced ∘ move = Token.unplaced := by
    funext t
    simp [Token.unplaced, (hMove t).1, (hMove t).2]
  calc (n.moved move).unplaced
      = n.mapTokens (Token.unplaced ∘ move)
          (Token.unplaced ∘ move) := mapTokens_comp n
    _ = n.unplaced := by rw [hToken, unplaced]

/-
  Distinct tokens can be moved to any others like them, side by
  side, by one function that moves no token to an unlike one.
-/
theorem exists_move
    {ts us : List Token}
    (hDistinct : ts.Nodup)
    (hAlike : List.Forall₂ Token.Alike ts us) :
    ∃ move : Token → Token,
      (∀ t : Token, t.Alike (move t)) ∧ us = ts.map move := by
  induction hAlike with
  | nil => exact ⟨id, Token.Alike.refl, rfl⟩
  | @cons t u ts us hFirst _ ih =>
      rw [List.nodup_cons] at hDistinct
      rcases ih hDistinct.2 with ⟨move, hMove, hRest⟩
      refine ⟨Function.update move t u, fun x => ?_, ?_⟩
      · rcases eq_or_ne x t with rfl | hOther
        · rw [Function.update_self]
          exact hFirst
        · rw [Function.update_of_ne hOther]
          exact hMove x
      · -- No later token is `t`, so these move as before.
        have hSame :
            ∀ x ∈ ts, Function.update move t u x = move x :=
          fun x hMem => Function.update_of_ne
            (ne_of_mem_of_not_mem hMem hDistinct.1) u move
        rw [List.map_cons, Function.update_self,
          List.map_congr_left hSame, hRest]

end Monkey
