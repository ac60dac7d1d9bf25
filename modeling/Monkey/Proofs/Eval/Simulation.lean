import Monkey.Eval.Node

/-
  Evaluation in two monads at once.

  The rules use a monad only through `pure`, `bind`, and steps
  of the machine.  So a relation between computations of two
  monads that these respect is respected by every rule.  This
  is the one induction for all ways to compare evaluations.

  Main declarations:
    * `Eval.Simulation`
    * `Eval.Simulation.step`
-/

namespace Monkey

namespace Eval

------------------------------------------------------------
-- Simulations
------------------------------------------------------------

/- A relation between computations that respects everything
   that rules are made of. -/
structure Simulation
    (M N : Type → Type)
    [Monad M] [MonadLiftT Eval M]
    [Monad N] [MonadLiftT Eval N] where
  rel : {α : Type} → M α → N α → Prop
  pure :
    ∀ {α : Type} (a : α), rel (Pure.pure a) (Pure.pure a)
  bind :
    ∀ {α β : Type} {x : M α} {y : N α}
      {f : α → M β} {g : α → N β},
      rel x y → (∀ a, rel (f a) (g a)) →
        rel (x >>= f) (y >>= g)
  lift :
    ∀ {α : Type} (x : Eval α),
      rel (liftM x : M α) (liftM x : N α)

namespace Simulation

variable {M N : Type → Type}
variable [Monad M] [MonadLiftT Eval M]
variable [Monad N] [MonadLiftT Eval N]
variable (S : Simulation M N)
variable {f : Node → ScopeId → M Value}
variable {g : Node → ScopeId → N Value}

------------------------------------------------------------
-- Statements
------------------------------------------------------------

theorem unlessError
    {x : M Value}
    {y : N Value}
    (v : Value)
    (h : S.rel x y) :
    S.rel (unlessError v x) (unlessError v y) := by
  unfold Eval.unlessError
  split
  · exact S.pure v
  · exact h

variable (h : ∀ n scope, S.rel (f n scope) (g n scope))

include h

theorem statements
    (scope : ScopeId)
    (last : Value)
    (body : List Node) :
    S.rel (statements f scope last body)
      (statements g scope last body) := by
  induction body generalizing last with
  | nil => exact S.pure last
  | cons s rest ih =>
      refine S.bind (h s scope) fun v => ?_
      split
      · exact S.pure v
      · exact ih v

theorem letStatement
    (scope : ScopeId)
    (name : String)
    (value : Node) :
    S.rel (letStatement f scope name value)
      (letStatement g scope name value) :=
  S.bind (h value scope) fun v =>
    S.unlessError v
      (S.bind (S.lift _) fun _ => S.pure _)

theorem returnStatement
    (scope : ScopeId)
    (value : Option Node) :
    S.rel (returnStatement f scope value)
      (returnStatement g scope value) := by
  cases value with
  | none => exact S.bind (S.lift _) fun _ => S.pure _
  | some e =>
      exact S.bind (h e scope) fun v =>
        S.unlessError v
          (S.bind (S.lift _) fun _ => S.pure _)

------------------------------------------------------------
-- Expressions
------------------------------------------------------------

theorem ifElse
    (scope : ScopeId)
    (condition consequence : Node)
    (alternative : Option Node) :
    S.rel (ifElse f scope condition consequence alternative)
      (ifElse g scope condition consequence alternative) := by
  refine S.bind (h condition scope) fun c =>
    S.unlessError c ?_
  split
  · exact h consequence scope
  · cases alternative with
    | none => exact S.pure _
    | some branch => exact h branch scope

theorem prefixExpression
    (scope : ScopeId)
    (operator : String)
    (right : Node) :
    S.rel (prefixExpression f scope operator right)
      (prefixExpression g scope operator right) :=
  S.bind (h right scope) fun r =>
    S.unlessError r (S.lift _)

theorem infixExpression
    (scope : ScopeId)
    (left : Node)
    (operator : String)
    (right : Node) :
    S.rel (infixExpression f scope left operator right)
      (infixExpression g scope left operator right) :=
  S.bind (h left scope) fun l =>
    S.unlessError l
      (S.bind (h right scope) fun r =>
        S.unlessError r (S.lift _))

theorem indexExpression
    [Platform]
    (scope : ScopeId)
    (left subscript : Node) :
    S.rel (indexExpression f scope left subscript)
      (indexExpression g scope left subscript) :=
  S.bind (h left scope) fun l =>
    S.unlessError l
      (S.bind (h subscript scope) fun i =>
        S.unlessError i (S.lift _))

theorem expressions
    (scope : ScopeId)
    (es : List Node) :
    S.rel (expressions f scope es)
      (expressions g scope es) := by
  induction es with
  | nil => exact S.pure _
  | cons e rest ih =>
      refine S.bind (h e scope) fun v => ?_
      split
      · exact S.pure _
      · refine S.bind ih fun others => ?_
        cases others with
        | ok vs => exact S.pure _
        | error stop => exact S.pure _

theorem arrayLiteral
    (scope : ScopeId)
    (elements : List Node) :
    S.rel (arrayLiteral f scope elements)
      (arrayLiteral g scope elements) := by
  refine S.bind (S.expressions h scope elements) fun vs => ?_
  cases vs with
  | ok vs => exact S.lift _
  | error stop => exact S.pure _

theorem hashPairs
    [Platform]
    (scope : ScopeId)
    (table : Table HashKey (HashPair Value))
    (pairs : List (Node × Node)) :
    S.rel (hashPairs f scope table pairs)
      (hashPairs g scope table pairs) := by
  induction pairs generalizing table with
  | nil => exact S.pure _
  | cons pair rest ih =>
      refine S.bind (h pair.1 scope) fun key => ?_
      split
      · exact S.pure _
      · split
        · exact S.bind (S.lift _) fun _ => S.pure _
        · refine S.bind (h pair.2 scope) fun value => ?_
          split
          · exact S.pure _
          · split
            · exact ih _
            · exact S.lift _

theorem hashLiteral
    [Platform]
    (scope : ScopeId)
    (pairs : List (Node × Node)) :
    S.rel (hashLiteral f scope pairs)
      (hashLiteral g scope pairs) := by
  refine S.bind (S.hashPairs h scope [] pairs) fun table => ?_
  cases table with
  | ok table => exact S.bind (S.lift _) fun _ => S.pure _
  | error stop => exact S.pure _

------------------------------------------------------------
-- Calls
------------------------------------------------------------

variable [Platform]

theorem apply
    (depth : Nat)
    (fn : Value)
    (args : List Value) :
    S.rel (apply f depth fn args)
      (apply g depth fn args) := by
  unfold Eval.apply
  split
  · exact S.bind (S.lift _) fun scope =>
      S.bind (h _ scope) fun v => S.pure _
  · exact S.lift _
  · exact S.lift _

theorem callExpression
    (depth : Nat)
    (scope : ScopeId)
    (callee : Node)
    (args : List Node) :
    S.rel (callExpression f depth scope callee args)
      (callExpression g depth scope callee args) := by
  refine S.bind (h callee scope) fun fn =>
    S.unlessError fn ?_
  refine S.bind (S.expressions h scope args) fun vs => ?_
  cases vs with
  | ok vs => exact S.apply h depth fn vs
  | error stop => exact S.pure _

------------------------------------------------------------
-- Nodes
------------------------------------------------------------

/- Where the parts of nodes are related, nodes are. -/
theorem step
    (depth : Nat)
    (node : Node)
    (scope : ScopeId) :
    S.rel (step f depth node scope)
      (step g depth node scope) := by
  cases node with
  | identifier | foreign => exact S.lift _
  | integer | boolean | string => exact S.pure _
  | prefixOp _ operator right =>
      exact S.prefixExpression h scope operator right
  | infixOp _ left operator right =>
      exact S.infixExpression h scope left operator right
  | ifElse _ condition consequence alternative =>
      exact S.ifElse h scope condition consequence alternative
  | function => exact S.bind (S.lift _) fun _ => S.pure _
  | call _ callee args =>
      exact S.callExpression h depth scope callee args
  | array _ elements => exact S.arrayLiteral h scope elements
  | index _ left subscript =>
      exact S.indexExpression h scope left subscript
  | hash _ pairs => exact S.hashLiteral h scope pairs
  | letStmt _ name value =>
      exact S.letStatement h scope name.name value
  | returnStmt _ value => exact S.returnStatement h scope value
  | exprStmt _ expression => exact h expression scope
  | block _ body => exact S.statements h scope .null body
  | program body =>
      exact S.bind (S.statements h scope .null body) fun v =>
        S.pure _

end Simulation

end Eval

end Monkey
