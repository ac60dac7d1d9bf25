import Monkey.Proofs.Parse.Steps

/-
  What holds of every rule of the grammar.

  Rules are put together from a few steps: they look at the
  stream, pass its current token, and stop, either where nesting
  is too deep or with an error at one of the two tokens in sight.
  A property of computations on streams that these steps have,
  and that is kept when computations follow each other, is one of
  all rules.  This is the one induction for such properties.

  Main declarations:
    * `Parse.Hereditary`
    * `Parse.Hereditary.expression`
    * `Parse.Hereditary.program`
-/

namespace Monkey

namespace Parse

/- A property of what a computation does from a stream on, which
   steps have and computations get from their parts. -/
structure Hereditary
    (holds : {α : Type} → Parse α → TokenStream → Prop) :
    Prop where
  looks :
    ∀ {α : Type} {x : Parse α} {s : TokenStream} {a : α},
      x s = .ok a s → holds x s
  passes : ∀ s, holds advance s
  tooDeep :
    ∀ {α : Type} (s : TokenStream),
      holds (throw .tooDeep : Parse α) s
  atCurrent :
    ∀ {α : Type} (cause : ParseError.Cause) (s : TokenStream),
      holds (fail cause s.current : Parse α) s
  atPeek :
    ∀ {α : Type} (cause : ParseError.Cause) (s : TokenStream),
      holds (fail cause s.peek : Parse α) s
  bind :
    ∀ {α β : Type} {x : Parse α} {f : α → Parse β}
      {s : TokenStream},
      holds x s →
        (∀ a t, x s = .ok a t → holds (f a) t) →
          holds (x >>= f) s

namespace Hereditary

variable {holds : {α : Type} → Parse α → TokenStream → Prop}
variable (h : Hereditary holds)
variable {α β : Type}
variable {s : TokenStream}

include h

------------------------------------------------------------
-- Going On
------------------------------------------------------------

theorem pure
    (a : α)
    (s : TokenStream) :
    holds (Pure.pure a : Parse α) s :=
  h.looks rfl

/- Go on with the current token. -/
theorem here
    {f : Token → Parse β}
    (hNext : holds (f s.current) s) :
    holds (current >>= f) s := by
  refine h.bind (h.looks rfl) fun t s' hRun => ?_
  obtain ⟨rfl, rfl⟩ := current_eq_ok.mp hRun
  exact hNext

/- Go on after looking at the next token. -/
theorem look
    {f : Token → Parse β}
    (hNext : holds (f s.peek) s) :
    holds (peek >>= f) s := by
  refine h.bind (h.looks rfl) fun t s' hRun => ?_
  obtain ⟨rfl, rfl⟩ := peek_eq_ok.mp hRun
  exact hNext

/- Go on with some number of rounds. -/
theorem count
    {f : Nat → Parse β}
    (hNext : ∀ n s, holds (f n) s) :
    holds (rounds >>= f) s :=
  h.bind (h.looks rfl) fun n t _ => hNext n t

/- Go on anywhere, with any result. -/
theorem andThen
    {x : Parse α}
    {f : α → Parse β}
    (hFirst : holds x s)
    (hNext : ∀ a s, holds (f a) s) :
    holds (x >>= f) s :=
  h.bind hFirst fun a t _ => hNext a t

/- Go on after passing a token. -/
theorem pass
    {f : Unit → Parse β}
    (hNext : ∀ s, holds (f ()) s) :
    holds (advance >>= f) s :=
  h.andThen (h.passes s) fun _ => hNext

theorem expect
    (kind : TokenKind)
    (s : TokenStream) :
    holds (expect kind) s := by
  refine h.look ?_
  split
  · exact h.passes s
  · exact h.atPeek _ s

/- Go on after a token of a certain kind. -/
theorem want
    {kind : TokenKind}
    {f : Unit → Parse β}
    (hNext : ∀ s, holds (f ()) s) :
    holds (Parse.expect kind >>= f) s :=
  h.andThen (h.expect kind s) fun _ => hNext

theorem acceptOptional
    (kind : TokenKind)
    (s : TokenStream) :
    holds (acceptOptional kind) s := by
  refine h.look ?_
  split
  · exact h.passes s
  · exact h.pure () s

theorem atPairsEnd
    (s : TokenStream) :
    holds atPairsEnd s :=
  h.look (h.pure _ s)

------------------------------------------------------------
-- Names and Numbers
------------------------------------------------------------

theorem identifierHere
    (s : TokenStream) :
    holds identifierHere s :=
  h.here (h.pure _ s)

theorem moreParameters
    (n : Nat)
    (s : TokenStream) :
    holds (moreParameters n) s := by
  induction n generalizing s with
  | zero => exact h.tooDeep s
  | succ n ih =>
      refine h.look ?_
      split
      · exact h.pass fun _ => h.want fun s =>
          h.andThen (h.identifierHere s) fun _ s =>
            h.andThen (ih s) fun _ => h.pure _
      · exact h.pure _ s

theorem parameters
    (s : TokenStream) :
    holds parameters s := by
  refine h.look ?_
  split
  · exact h.pass fun s => h.pure _ s
  · exact h.want fun s =>
      h.andThen (h.identifierHere s) fun _ _ =>
        h.count fun n s =>
          h.andThen (h.moreParameters n s) fun _ _ =>
            h.want fun s => h.pure _ s

theorem integerLiteral
    (s : TokenStream) :
    holds integerLiteral s := by
  refine h.here ?_
  cases readInteger? s.current.literal with
  | some n => exact h.pure _ s
  | none => exact h.atCurrent _ s

------------------------------------------------------------
-- Statements
------------------------------------------------------------

variable {expr : Precedence → Parse Node}
variable (hExpr : ∀ p s, holds (expr p) s)

include hExpr

/- A value and an optional semicolon after it. -/
theorem valueThen
    {p : Precedence}
    {f : Node → Parse Node}
    (hNext : ∀ value s, holds (f value) s)
    (s : TokenStream) :
    holds
      (do
        let value ← expr p
        Parse.acceptOptional .semicolon
        f value)
      s :=
  h.andThen (hExpr p s) fun value s =>
    h.andThen (h.acceptOptional _ s) fun _ => hNext value

theorem letStatement
    (s : TokenStream) :
    holds (letStatement expr) s :=
  h.here <| h.want fun s =>
    h.andThen (h.identifierHere s) fun _ _ =>
      h.want fun _ => h.pass fun s =>
        h.valueThen hExpr (fun _ => h.pure _) s

theorem returnStatement
    (s : TokenStream) :
    holds (returnStatement expr) s := by
  refine h.here (h.look ?_)
  split
  · exact h.pass fun s => h.pure _ s
  · split
    · exact h.pure _ s
    · split
      · exact h.pure _ s
      · exact h.pass fun s =>
          h.valueThen hExpr (fun _ => h.pure _) s

theorem statement
    (s : TokenStream) :
    holds (statement expr) s := by
  refine h.here ?_
  split
  · exact h.letStatement hExpr s
  · exact h.returnStatement hExpr s
  · exact h.here (h.valueThen hExpr (fun _ => h.pure _) s)

/- One statement and those after it. -/
theorem consStatement
    {more : Parse (List Node)}
    (hMore : ∀ s, holds more s)
    (s : TokenStream) :
    holds
      (do
        let first ← Parse.statement expr
        advance
        let others ← more
        return first :: others)
      s :=
  h.andThen (h.statement hExpr s) fun _ _ => h.pass fun s =>
    h.andThen (hMore s) fun _ => h.pure _

theorem blockStatements
    (n : Nat)
    (s : TokenStream) :
    holds (blockStatements expr n) s := by
  induction n generalizing s with
  | zero => exact h.tooDeep s
  | succ n ih =>
      refine h.here ?_
      split
      · exact h.pure _ s
      · split
        · exact h.atCurrent _ s
        · exact h.consStatement hExpr ih s

theorem programStatements
    (n : Nat)
    (s : TokenStream) :
    holds (programStatements expr n) s := by
  induction n generalizing s with
  | zero => exact h.tooDeep s
  | succ n ih =>
      refine h.here ?_
      split
      · exact h.pure _ s
      · exact h.consStatement hExpr ih s

theorem block
    (s : TokenStream) :
    holds (block expr) s :=
  h.here <| h.pass fun _ => h.count fun n s =>
    h.andThen (h.blockStatements hExpr n s) fun _ => h.pure _

/- A program. -/
theorem program
    (s : TokenStream) :
    holds (program expr) s :=
  h.count fun n s =>
    h.andThen (h.programStatements hExpr n s) fun _ => h.pure _

------------------------------------------------------------
-- Lists of Expressions
------------------------------------------------------------

theorem moreExpressions
    (n : Nat)
    (s : TokenStream) :
    holds (moreExpressions expr n) s := by
  induction n generalizing s with
  | zero => exact h.tooDeep s
  | succ n ih =>
      refine h.look ?_
      split
      · exact h.pass fun _ => h.pass fun s =>
          h.andThen (hExpr _ s) fun _ s =>
            h.andThen (ih s) fun _ => h.pure _
      · exact h.pure _ s

theorem expressionList
    (close : TokenKind)
    (s : TokenStream) :
    holds (expressionList expr close) s := by
  refine h.look ?_
  split
  · exact h.pass fun s => h.pure _ s
  · exact h.pass fun s => h.andThen (hExpr _ s) fun _ _ =>
      h.count fun n s =>
        h.andThen (h.moreExpressions hExpr n s) fun _ _ =>
          h.want fun s => h.pure _ s

theorem hashPairs
    (n : Nat)
    (s : TokenStream) :
    holds (hashPairs expr n) s := by
  induction n generalizing s with
  | zero => exact h.tooDeep s
  | succ n ih =>
      have hMore :
          ∀ pair s,
            holds
              (do
                let more ← Parse.hashPairs expr n
                return pair :: more)
              s :=
        fun _ s => h.andThen (ih s) fun _ => h.pure _
      refine h.andThen (h.atPairsEnd s) fun atEnd s => ?_
      split
      · exact h.pure _ s
      · refine h.pass fun s => h.andThen (hExpr _ s) fun _ _ => ?_
        refine h.want fun _ => h.pass fun s => ?_
        refine h.andThen (hExpr _ s) fun _ s => ?_
        refine h.andThen (h.atPairsEnd s) fun isLast s => ?_
        split
        · exact hMore _ s
        · exact h.want (hMore _)

------------------------------------------------------------
-- First Parts of Expressions
------------------------------------------------------------

theorem prefixExpression
    (s : TokenStream) :
    holds (prefixExpression expr) s :=
  h.here <| h.pass fun s =>
    h.andThen (hExpr _ s) fun _ => h.pure _

theorem groupedExpression
    (s : TokenStream) :
    holds (groupedExpression expr) s :=
  h.pass fun s => h.andThen (hExpr _ s) fun _ _ =>
    h.want fun s => h.pure _ s

theorem alternative
    (s : TokenStream) :
    holds (alternative expr) s := by
  refine h.look ?_
  split
  · exact h.pass fun _ => h.want fun s =>
      h.andThen (h.block hExpr s) fun _ => h.pure _
  · exact h.pure _ s

theorem ifExpression
    (s : TokenStream) :
    holds (ifExpression expr) s :=
  h.here <| h.want fun _ => h.pass fun s =>
    h.andThen (hExpr _ s) fun _ _ => h.want fun _ =>
      h.want fun s => h.andThen (h.block hExpr s) fun _ s =>
        h.andThen (h.alternative hExpr s) fun _ => h.pure _

theorem functionLiteral
    (s : TokenStream) :
    holds (functionLiteral expr) s :=
  h.here <| h.want fun s =>
    h.andThen (h.parameters s) fun _ _ => h.want fun s =>
      h.andThen (h.block hExpr s) fun _ => h.pure _

theorem arrayLiteral
    (s : TokenStream) :
    holds (arrayLiteral expr) s :=
  h.here <| h.andThen (h.expressionList hExpr _ s)
    fun _ => h.pure _

theorem hashLiteral
    (s : TokenStream) :
    holds (hashLiteral expr) s :=
  h.here <| h.count fun n s =>
    h.andThen (h.hashPairs hExpr n s) fun _ _ =>
      h.want fun s => h.pure _ s

theorem firstPart
    (s : TokenStream) :
    holds (firstPart expr) s := by
  refine h.here ?_
  split
  · exact h.pure _ s
  · exact h.integerLiteral s
  · exact h.pure _ s
  · exact h.pure _ s
  · exact h.pure _ s
  · exact h.prefixExpression hExpr s
  · exact h.prefixExpression hExpr s
  · exact h.groupedExpression hExpr s
  · exact h.ifExpression hExpr s
  · exact h.functionLiteral hExpr s
  · exact h.arrayLiteral hExpr s
  · exact h.hashLiteral hExpr s
  · exact h.atCurrent _ s

------------------------------------------------------------
-- Operators, Calls, and Indexings
------------------------------------------------------------

theorem continuation
    (left : Node)
    (s : TokenStream) :
    holds (continuation expr left) s := by
  refine h.here ?_
  split
  · exact h.here <| h.andThen (h.expressionList hExpr _ s)
      fun _ => h.pure _
  · exact h.here <| h.pass fun s =>
      h.andThen (hExpr _ s) fun _ _ => h.want fun s => h.pure _ s
  · exact h.here <| h.pass fun s =>
      h.andThen (hExpr _ s) fun _ => h.pure _

theorem continuations
    (p : Precedence)
    (n : Nat)
    (left : Node)
    (s : TokenStream) :
    holds (continuations expr p n left) s := by
  induction n generalizing left s with
  | zero => exact h.tooDeep s
  | succ n ih =>
      refine h.look ?_
      split
      · exact h.pass fun s =>
          h.andThen (h.continuation hExpr left s) ih
      · exact h.pure _ s

------------------------------------------------------------
-- Expressions
------------------------------------------------------------

theorem expressionStep
    (p : Precedence)
    (s : TokenStream) :
    holds (expressionStep expr p) s :=
  h.andThen (h.firstPart hExpr s) fun left _ =>
    h.count fun n => h.continuations hExpr p n left

omit hExpr in
/- An expression of any depth, by one level at a time. -/
theorem expression
    (depth : Nat)
    (p : Precedence)
    (s : TokenStream) :
    holds (expression depth p) s := by
  induction depth generalizing p s with
  | zero => exact h.tooDeep s
  | succ depth ih => exact h.expressionStep ih p s

end Hereditary

end Parse

end Monkey
