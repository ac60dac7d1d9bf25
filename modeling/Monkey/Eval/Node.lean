import Monkey.Eval.Builtin
import Monkey.Eval.Operator

/-
  Evaluation of syntax trees.

  Each rule takes the evaluator of the parts of a node as a
  parameter; `evaluate` closes the circle, one level of nesting
  or recursion at a time.  Parts are evaluated from left to
  right.  An error value ends whatever it comes up in and is its
  result; a return mark ends the statements around it and is
  taken off where a function or program ends.

  The rules touch the machine only through steps of `Eval`, and
  so make sense in every monad that has those.
-/

namespace Monkey

namespace Eval

variable [Platform]
variable {M : Type → Type} [Monad M] [MonadLiftT Eval M]
variable (eval : Node → ScopeId → M Value)

------------------------------------------------------------
-- Going on After a Part
------------------------------------------------------------

/- Go on with a value unless it is an error. -/
@[inline]
def unlessError
    (v : Value)
    (next : M Value) :
    M Value :=
  if v.isError then pure v else next

/- The outcome of an operation, where a complaint becomes an
   error value. -/
def settle (outcome : Except Complaint Value) : Eval Value :=
  match outcome with
  | .ok v => pure v
  | .error c => raise c.message

------------------------------------------------------------
-- Statements
------------------------------------------------------------

/-
  Evaluate statements in order, up to the first one that gives
  a return mark or an error.  The result is that of the last
  one evaluated, or `last` where there is none.
-/
@[specialize]
def statements
    (scope : ScopeId)
    (last : Value) :
    List Node → M Value
  | [] => pure last
  | s :: rest => do
      let v ← eval s scope
      if v.isFinal then
        return v
      else
        statements scope v rest

/- Bind a name to a value, unless it is an error. -/
@[specialize]
def letStatement
    (scope : ScopeId)
    (name : String)
    (value : Node) :
    M Value := do
  let v ← eval value scope
  unlessError v do
    define scope name v
    return .null

/- Mark a value, or null, for return. -/
@[specialize]
def returnStatement
    (scope : ScopeId)
    (value : Option Node) :
    M Value :=
  match value with
  | none => do
      return .returned (← fresh) .null
  | some e => do
      let v ← eval e scope
      unlessError v do
        return .returned (← fresh) v

------------------------------------------------------------
-- Expressions
------------------------------------------------------------

/- The value of a name: the innermost binding, or else the
   builtin function of that name. -/
def identifier
    (scope : ScopeId)
    (name : String) :
    Eval Value := do
  match (← lookup scope name) with
  | some v => return v
  | none =>
      match Builtin.ofName? name with
      | some b => return .builtin b
      | none => raise (Complaint.notFound name).message

/- Evaluate the branch that the condition selects; without
   one, the result is null. -/
@[specialize]
def ifElse
    (scope : ScopeId)
    (condition : Node)
    (consequence : Node)
    (alternative : Option Node) :
    M Value := do
  let c ← eval condition scope
  unlessError c <|
    if c.isTruthy then
      eval consequence scope
    else
      match alternative with
      | some branch => eval branch scope
      | none => pure .null

/- Apply a prefix operator to the value of its operand. -/
@[specialize]
def prefixExpression
    (scope : ScopeId)
    (operator : String)
    (right : Node) :
    M Value := do
  let r ← eval right scope
  unlessError r (settle (r.applyPrefix operator))

/- Apply an infix operator to the values of its operands. -/
@[specialize]
def infixExpression
    (scope : ScopeId)
    (left : Node)
    (operator : String)
    (right : Node) :
    M Value := do
  let l ← eval left scope
  unlessError l do
    let r ← eval right scope
    unlessError r (settle (l.applyInfix operator r))

/- Look a value up in another one. -/
def lookInside
    (left : Value)
    (subscript : Value) :
    Eval Value := do
  settle (← ofExcept (left.applyIndex subscript))

/- Index one value by another. -/
@[specialize]
def indexExpression
    (scope : ScopeId)
    (left : Node)
    (subscript : Node) :
    M Value := do
  let l ← eval left scope
  unlessError l do
    let i ← eval subscript scope
    unlessError i (lookInside l i)

/- The values of expressions, or the first error. -/
@[specialize]
def expressions
    (scope : ScopeId) :
    List Node → M (Except Value (List Value))
  | [] => return .ok []
  | e :: rest => do
      let v ← eval e scope
      if v.isError then
        return .error v
      else
        match (← expressions scope rest) with
        | .ok vs => return .ok (v :: vs)
        | .error stop => return .error stop

/- A new array of the values of expressions. -/
@[specialize]
def arrayLiteral
    (scope : ScopeId)
    (elements : List Node) :
    M Value := do
  match (← expressions eval scope elements) with
  | .ok vs => Builtin.newArray vs
  | .error stop => return stop

/-
  Extend a table by the values of pairs of expressions.  That a
  key can be one is checked before its value is evaluated, and
  the key itself is made after that.
-/
@[specialize]
def hashPairs
    (scope : ScopeId)
    (table : Table HashKey (HashPair Value)) :
    List (Node × Node) →
      M (Except Value (Table HashKey (HashPair Value)))
  | [] => return .ok table
  | (keyNode, valueNode) :: rest => do
      let key ← eval keyNode scope
      if key.isError then
        return .error key
      else
        match key.hashKey? with
        | none =>
            let c := Complaint.unusableKey key.type
            return .error (← raise c.message)
        | some made =>
            let value ← eval valueNode scope
            if value.isError then
              return .error value
            else
              match made with
              | .ok k =>
                  hashPairs scope
                    (table.insert k { key, value }) rest
              | .error f => (throw f : Eval _)

/- A new hash of the values of pairs of expressions. -/
@[specialize]
def hashLiteral
    (scope : ScopeId)
    (pairs : List (Node × Node)) :
    M Value := do
  match (← hashPairs eval scope [] pairs) with
  | .ok table => return .hash (← fresh) table
  | .error stop => return stop

------------------------------------------------------------
-- Calls
------------------------------------------------------------

/- Bind names in order. -/
def defineAll
    (scope : ScopeId) :
    List (Identifier × Value) → Eval Unit
  | [] => pure ()
  | (param, v) :: rest => do
      define scope param.name v
      defineAll scope rest

/-
  The scope of a call: inside the scope of the function, with
  the parameters bound by position.  Parameters without an
  argument stay unbound, and further arguments are dropped.
-/
def callScope
    (outer : ScopeId)
    (params : List Identifier)
    (args : List Value) :
    Eval ScopeId := do
  let scope ← newScope (some outer)
  defineAll scope (params.zip args)
  return scope

/- Apply a function to arguments. -/
@[specialize]
def apply
    (depth : Nat)
    (fn : Value)
    (args : List Value) :
    M Value :=
  match fn with
  | .function _ params body outer => do
      let scope ← callScope outer params args
      let v ← eval body scope
      return v.unwrapReturned
  | .builtin b => b.call depth args
  | v => raise (Complaint.notAFunction v.type).message

/- Evaluate a callee and its arguments, and apply the one to
   the others. -/
@[specialize]
def callExpression
    (depth : Nat)
    (scope : ScopeId)
    (callee : Node)
    (args : List Node) :
    M Value := do
  let fn ← eval callee scope
  unlessError fn do
    match (← expressions eval scope args) with
    | .ok vs => apply eval depth fn vs
    | .error stop => return stop

------------------------------------------------------------
-- Nodes
------------------------------------------------------------

/- Evaluate a node whose parts are evaluated by `eval`. -/
@[specialize]
def step
    (depth : Nat)
    (node : Node)
    (scope : ScopeId) :
    M Value :=
  match node with
  | .identifier id => identifier scope id.name
  | .integer _ n => return .int n
  | .boolean _ b => return .bool b
  | .string _ s => return .str s
  | .prefixOp _ operator right =>
      prefixExpression eval scope operator right
  | .infixOp _ left operator right =>
      infixExpression eval scope left operator right
  | .ifElse _ condition consequence alternative =>
      ifElse eval scope condition consequence alternative
  | .function _ params body => do
      return .function (← fresh) params body scope
  | .call _ callee args =>
      callExpression eval depth scope callee args
  | .array _ elements => arrayLiteral eval scope elements
  | .index _ left subscript =>
      indexExpression eval scope left subscript
  | .hash _ pairs => hashLiteral eval scope pairs
  | .letStmt _ name value =>
      letStatement eval scope name.name value
  | .returnStmt _ value => returnStatement eval scope value
  | .exprStmt _ expression => eval expression scope
  | .block _ body => statements eval scope .null body
  | .program body => do
      let v ← statements eval scope .null body
      return v.unwrapReturned
  | .foreign => (throw .unknownNode : Eval Value)

/-
  Evaluate a node in a scope with at most a number of levels of
  nesting and recursion.  The levels that are left also bound
  the nesting of the values that it prints.
-/
def evaluateWithin : Nat → Node → ScopeId → Eval Value
  | 0, _, _ => throw .tooDeep
  | depth + 1, node, scope =>
      step (M := Eval) (evaluateWithin depth) depth node scope

end Eval

variable [Platform]

/- Evaluate a node in a scope. -/
def evaluate
    (node : Node)
    (scope : ScopeId) :
    Eval Value :=
  Eval.evaluateWithin Platform.recursionLimit node scope

/- Apply a function to arguments. -/
def applyFunction
    (fn : Value)
    (args : List Value) :
    Eval Value :=
  Eval.apply (Eval.evaluateWithin Platform.recursionLimit)
    Platform.recursionLimit fn args

end Monkey
