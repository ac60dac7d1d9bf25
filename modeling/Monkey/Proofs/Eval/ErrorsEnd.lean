import Monkey.Proofs.Eval.Log

/-
  Errors end an evaluation.

  Once a part has yielded an error, at whatever depth and in
  whatever function, the log has nothing but the same error
  passed on by the nodes around that part, and the machine stays
  as it was.

  Main declarations:
    * `Logged.Stops`
    * `Logged.Stops.bind`
    * `error_ends_evaluation`
-/

namespace Monkey

------------------------------------------------------------
-- Computations That Stop at Errors
------------------------------------------------------------

/- A part yields a value and leaves a machine. -/
def Event.Yields
    (v : Value)
    (m : Machine)
    (e : Event) : Prop :=
  ∃ parent part scope, e = .yields parent part scope v m

namespace Logged

variable {α β : Type}

/-
  After an error the computation only passes it on, and its
  outcome carries it.  What carries an error depends on what the
  computation gives.
-/
def Stops
    (carries : α → Value → Prop)
    (x : Logged α) : Prop :=
  ∀ ⦃m m₁ : Machine⦄ ⦃before after : List Event⦄ ⦃e : Event⦄
    ⦃v : Value⦄,
    (x m).1 = before ++ e :: after →
    e.Yields v m₁ →
    v.isError = true →
    (∃ a, (x m).2 = .ok a m₁ ∧ carries a v) ∧
      ∀ e' ∈ after, e'.Yields v m₁

/- A computation that only passes an error on. -/
def Passes
    (carries : α → Value → Prop)
    (v : Value)
    (x : Logged α) : Prop :=
  ∀ m,
    (∃ a, (x m).2 = .ok a m ∧ carries a v) ∧
      ∀ e ∈ (x m).1, e.Yields v m

theorem Passes.pure
    {carries : α → Value → Prop}
    {v : Value}
    {a : α}
    (h : carries a v) :
    Passes carries v (Pure.pure a) := by
  intro m
  refine ⟨⟨a, rfl, h⟩, ?_⟩
  change ∀ e ∈ [], _
  simp

namespace Stops

variable {carries : α → Value → Prop}
variable {carries' : β → Value → Prop}

theorem pure
    (a : α) :
    Stops carries (Pure.pure a) := by
  intro m m₁ before after e v hLog
  change [] = before ++ e :: after at hLog
  simp at hLog

/- With a single event there is nothing after an error. -/
theorem of_single
    {x : Logged α}
    (event : Machine → Event)
    (hLog : ∀ m, (x m).1 = [event m])
    (hOutcome :
      ∀ m m₁ v, (event m).Yields v m₁ →
        ∃ a, (x m).2 = .ok a m₁ ∧ carries a v) :
    Stops carries x := by
  intro m m₁ before after e v hSplit hYields _
  rw [hLog] at hSplit
  rcases List.singleton_eq_append_iff.mp hSplit with
    ⟨-, hRest⟩ | ⟨-, hRest⟩
  · rw [List.cons.injEq] at hRest
    rcases hRest with ⟨rfl, rfl⟩
    exact ⟨hOutcome m m₁ v hYields, by simp⟩
  · simp at hRest

theorem lift
    (x : Eval α) :
    Stops carries (liftM x) := by
  refine of_single (fun m => .acts m (machineOf (x m)))
    (fun _ => rfl) ?_
  rintro m m₁ v ⟨_, _, _, hEvent⟩
  cases hEvent

/- A sequence stops if its second half passes on the errors of
   the first. -/
theorem bind
    {x : Logged α}
    {f : α → Logged β}
    (hx : Stops carries x)
    (hf : ∀ a, Stops carries' (f a))
    (hPass :
      ∀ a v, v.isError = true → carries a v →
        Passes carries' v (f a)) :
    Stops carries' (x >>= f) := by
  intro m m₁ before after e v hLog hYields hError
  change (andThen (x m) f).1 = _ at hLog
  change (∃ b, (andThen (x m) f).2 = .ok b m₁ ∧ _) ∧ _
  unfold andThen at hLog ⊢
  cases hResult : (x m).2 with
  | error failure m' =>
      rw [hResult] at hLog
      rcases hx hLog hYields hError with ⟨⟨a, hOk, -⟩, -⟩
      rw [hResult] at hOk
      cases hOk
  | ok a m' =>
      simp only [hResult] at hLog ⊢
      rcases List.append_eq_append_iff.mp hLog with
        ⟨us, -, hSecond⟩ | ⟨us, hFirst, hRest⟩
      · -- The error comes up in the second half.
        exact hf a hSecond hYields hError
      · cases us with
        | nil =>
            have hSecond : (f a m').1 = [] ++ e :: after :=
              hRest.symm
            exact hf a hSecond hYields hError
        | cons e' us =>
            -- The error comes up in the first half.
            rw [List.cons_append, List.cons.injEq] at hRest
            rcases hRest with ⟨rfl, rfl⟩
            rcases hx hFirst hYields hError with
              ⟨⟨a', hOk, hCarries⟩, hAfter⟩
            rw [hResult] at hOk
            cases hOk
            rcases hPass a v hError hCarries _ with
              ⟨hOutcome, hPassed⟩
            refine ⟨hOutcome, ?_⟩
            intro e' hMem
            rcases List.mem_append.mp hMem with hMem | hMem
            · exact hAfter e' hMem
            · exact hPassed e' hMem

/- A step of the machine has no part that could yield an
   error. -/
theorem act
    (x : Eval α)
    {f : α → Logged β}
    (hf : ∀ a, Stops carries' (f a)) :
    Stops carries' (liftM x >>= f) := by
  have hx : Stops (fun _ _ => False) (liftM x : Logged α) :=
    lift x
  exact bind hx hf nofun

/- An outcome that is a value carries an error by being it. -/
theorem bindValue
    {x : Logged Value}
    {f : Value → Logged β}
    (hx : Stops (· = ·) x)
    (hf : ∀ v, Stops carries' (f v))
    (hPass :
      ∀ v, v.isError = true → Passes carries' v (f v)) :
    Stops carries' (x >>= f) := by
  refine bind hx hf ?_
  rintro a v hError rfl
  exact hPass a hError

/- Putting down that a part yields a value passes it on. -/
theorem passes_yields
    (parent node : Node)
    (scope : ScopeId)
    (v : Value) :
    Passes (· = ·) v do
      note (.yields parent node scope v)
      return v := by
  intro m
  refine ⟨⟨v, rfl, rfl⟩, ?_⟩
  change ∀ e ∈ [Event.yields parent node scope v m], _
  simp only [List.mem_singleton]
  rintro e rfl
  exact ⟨parent, node, scope, rfl⟩

/- The evaluation of a part stops where the evaluation
   itself does. -/
theorem part
    {eval : Node → ScopeId → Logged Value}
    (parent node : Node)
    (scope : ScopeId)
    (h : Stops (· = ·) (eval node scope)) :
    Stops (· = ·) (part parent eval node scope) := by
  have hBegins :
      Stops (fun _ _ => False)
        (note (.begins parent node scope)) := by
    refine of_single (.begins parent node scope)
      (fun _ => rfl) ?_
    rintro m m₁ v ⟨_, _, _, hEvent⟩
    cases hEvent
  refine bind hBegins (fun _ => bindValue h ?_ ?_) nofun
  · intro v
    refine of_single (.yields parent node scope v)
      (fun _ => rfl) ?_
    rintro m m₁ v ⟨_, _, _, hEvent⟩
    cases hEvent
    exact ⟨v, rfl, rfl⟩
  · intro v _
    exact passes_yields parent node scope v

------------------------------------------------------------
-- Rules
------------------------------------------------------------

variable {eval : Node → ScopeId → Logged Value}

theorem unlessError
    {next : Logged Value}
    (v : Value)
    (h : Stops (· = ·) next) :
    Stops (· = ·) (Eval.unlessError v next) := by
  unfold Eval.unlessError
  split
  · exact pure v
  · exact h

theorem passes_unlessError
    {v : Value}
    (next : Logged Value)
    (hError : v.isError = true) :
    Passes (· = ·) v (Eval.unlessError v next) := by
  rw [Eval.unlessError, if_pos hError]
  exact .pure rfl

/- The rules for an operand that comes first. -/
theorem operand
    {x : Logged Value}
    {next : Value → Logged Value}
    (hx : Stops (· = ·) x)
    (hNext : ∀ v, Stops (· = ·) (next v)) :
    Stops (· = ·)
      (x >>= fun v => Eval.unlessError v (next v)) :=
  bindValue hx (fun v => unlessError v (hNext v))
    fun v hError => passes_unlessError (next v) hError

/- Taking off a return mark leaves errors as they are. -/
theorem unwrapping
    {x : Logged Value}
    (hx : Stops (· = ·) x) :
    Stops (· = ·)
      (x >>= fun v => Pure.pure v.unwrapReturned) := by
  refine bindValue hx (fun v => pure _) ?_
  intro v hError
  cases v with
  | error id message => exact .pure rfl
  | _ => cases hError

variable (h : ∀ n scope, Stops (· = ·) (eval n scope))

include h

theorem statements
    (scope : ScopeId)
    (last : Value)
    (body : List Node) :
    Stops (· = ·) (Eval.statements eval scope last body) := by
  induction body generalizing last with
  | nil => exact pure last
  | cons s rest ih =>
      refine bindValue (h s scope) (fun v => ?_) ?_
      · split
        · exact pure v
        · exact ih v
      · intro v hError
        have hFinal : v.isFinal = true := by
          cases v <;> simp_all [Value.isError, Value.isFinal]
        rw [if_pos hFinal]
        exact .pure rfl

theorem letStatement
    (scope : ScopeId)
    (name : String)
    (value : Node) :
    Stops (· = ·)
      (Eval.letStatement eval scope name value) :=
  operand (h value scope) fun _ => act _ fun _ => pure _

theorem returnStatement
    (scope : ScopeId)
    (value : Option Node) :
    Stops (· = ·)
      (Eval.returnStatement eval scope value) := by
  cases value with
  | none => exact act _ fun _ => pure _
  | some e =>
      exact operand (h e scope) fun _ => act _ fun _ => pure _

theorem ifElse
    (scope : ScopeId)
    (condition consequence : Node)
    (alternative : Option Node) :
    Stops (· = ·)
      (Eval.ifElse eval scope condition consequence
        alternative) := by
  refine operand (h condition scope) fun c => ?_
  split
  · exact h consequence scope
  · cases alternative with
    | none => exact pure _
    | some branch => exact h branch scope

theorem prefixExpression
    (scope : ScopeId)
    (operator : String)
    (right : Node) :
    Stops (· = ·)
      (Eval.prefixExpression eval scope operator right) :=
  operand (h right scope) fun _ => lift _

theorem infixExpression
    (scope : ScopeId)
    (left : Node)
    (operator : String)
    (right : Node) :
    Stops (· = ·)
      (Eval.infixExpression eval scope left operator right) :=
  operand (h left scope) fun _ =>
    operand (h right scope) fun _ => lift _

theorem indexExpression
    [Platform]
    (scope : ScopeId)
    (left subscript : Node) :
    Stops (· = ·)
      (Eval.indexExpression eval scope left subscript) :=
  operand (h left scope) fun _ =>
    operand (h subscript scope) fun _ => lift _

/- The outcome of several expressions carries an error as what
   stopped them. -/
theorem expressions
    (scope : ScopeId)
    (es : List Node) :
    Stops (fun r v => r = .error v)
      (Eval.expressions eval scope es) := by
  induction es with
  | nil => exact pure _
  | cons e rest ih =>
      refine bindValue (h e scope) (fun v => ?_) ?_
      · split
        · exact pure _
        · refine bind ih (fun others => ?_) ?_
          · cases others with
            | ok vs => exact pure _
            | error stop => exact pure _
          · rintro _ stop _ rfl
            exact .pure rfl
      · intro v hError
        rw [if_pos hError]
        exact .pure rfl

theorem arrayLiteral
    (scope : ScopeId)
    (elements : List Node) :
    Stops (· = ·)
      (Eval.arrayLiteral eval scope elements) := by
  refine bind (expressions h scope elements) (fun r => ?_) ?_
  · cases r with
    | ok vs => exact lift _
    | error stop => exact pure _
  · rintro _ v _ rfl
    exact .pure rfl

theorem hashPairs
    [Platform]
    (scope : ScopeId)
    (table : Table HashKey (HashPair Value))
    (pairs : List (Node × Node)) :
    Stops (fun r v => r = .error v)
      (Eval.hashPairs eval scope table pairs) := by
  induction pairs generalizing table with
  | nil => exact pure _
  | cons pair rest ih =>
      refine bindValue (h pair.1 scope) (fun key => ?_) ?_
      · split
        · exact pure _
        · split
          · exact act _ fun _ => pure _
          · refine bindValue (h pair.2 scope)
              (fun value => ?_) ?_
            · split
              · exact pure _
              · split
                · exact ih _
                · exact lift _
            · intro v hError
              rw [if_pos hError]
              exact .pure rfl
      · intro v hError
        rw [if_pos hError]
        exact .pure rfl

theorem hashLiteral
    [Platform]
    (scope : ScopeId)
    (pairs : List (Node × Node)) :
    Stops (· = ·)
      (Eval.hashLiteral eval scope pairs) := by
  refine bind (hashPairs h scope [] pairs) (fun r => ?_) ?_
  · cases r with
    | ok table => exact act _ fun _ => pure _
    | error stop => exact pure _
  · rintro _ v _ rfl
    exact .pure rfl

theorem apply
    [Platform]
    (depth : Nat)
    (fn : Value)
    (args : List Value) :
    Stops (· = ·) (Eval.apply eval depth fn args) := by
  unfold Eval.apply
  split
  · exact act _ fun scope => unwrapping (h _ scope)
  · exact lift _
  · exact lift _

theorem callExpression
    [Platform]
    (depth : Nat)
    (scope : ScopeId)
    (callee : Node)
    (args : List Node) :
    Stops (· = ·)
      (Eval.callExpression eval depth scope callee args) := by
  refine operand (h callee scope) fun fn => ?_
  refine bind (expressions h scope args) (fun r => ?_) ?_
  · cases r with
    | ok vs => exact apply h depth fn vs
    | error stop => exact pure _
  · rintro _ v _ rfl
    exact .pure rfl

/- Every node stops at the errors of its parts. -/
theorem step
    [Platform]
    (depth : Nat)
    (node : Node)
    (scope : ScopeId) :
    Stops (· = ·) (Eval.step eval depth node scope) := by
  cases node with
  | identifier | foreign => exact lift _
  | integer | boolean | string => exact pure _
  | prefixOp _ operator right =>
      exact prefixExpression h scope operator right
  | infixOp _ left operator right =>
      exact infixExpression h scope left operator right
  | ifElse _ condition consequence alternative =>
      exact ifElse h scope condition consequence alternative
  | function => exact act _ fun _ => pure _
  | call _ callee args =>
      exact callExpression h depth scope callee args
  | array _ elements => exact arrayLiteral h scope elements
  | index _ left subscript =>
      exact indexExpression h scope left subscript
  | hash _ pairs => exact hashLiteral h scope pairs
  | letStmt _ name value =>
      exact letStatement h scope name.name value
  | returnStmt _ value => exact returnStatement h scope value
  | exprStmt _ expression => exact h expression scope
  | block _ body => exact statements h scope .null body
  | program body =>
      exact unwrapping (statements h scope .null body)

end Stops

/- A logged evaluation stops at the first error. -/
theorem stops_evaluateLogged
    [Platform]
    (depth : Nat)
    (node : Node)
    (scope : ScopeId) :
    Stops (· = ·)
      (Eval.evaluateLogged depth node scope) := by
  induction depth generalizing node scope with
  | zero => exact .lift _
  | succ depth ih =>
      exact .step (fun n s => .part node n s (ih n s)) depth
        node scope

end Logged

------------------------------------------------------------
-- Evaluation
------------------------------------------------------------

variable [Platform]

/-
  If, during an evaluation, the evaluation of a part yields an
  error, then the result is that same error and the machine is
  as it was at that moment.  Nothing else happens from then on:
  no evaluation begins and no step is made, and the parts around
  yield the same error.
-/
theorem error_ends_evaluation
    (depth : Nat)
    (node : Node)
    (scope : ScopeId)
    (m m₁ : Machine)
    (before after : List Event)
    (parent part : Node)
    (inner : ScopeId)
    (v : Value)
    (hLog :
      (Eval.evaluateLogged depth node scope m).1 =
        before ++ .yields parent part inner v m₁ :: after)
    (hError : v.isError = true) :
    Eval.evaluateWithin depth node scope m = .ok v m₁ ∧
      ∀ e ∈ after, ∃ parent' part' inner',
        e = .yields parent' part' inner' v m₁ := by
  rcases Logged.stops_evaluateLogged depth node scope hLog
      ⟨parent, part, inner, rfl⟩ hError with
    ⟨⟨a, hOk, rfl⟩, hAfter⟩
  refine ⟨?_, hAfter⟩
  rw [← Eval.evaluateLogged_result]
  exact hOk

/- In `[-nope, puts(1)]` the unbound name ends everything:
   nothing is printed. -/
omit [Platform] in
theorem error_ends_evaluation_unbound :
    letI := Platform.usual
    let t : Token := ⟨.illegal, "", 0, 0⟩
    let name : Node := .identifier ⟨t, "nope"⟩
    let minus : Node := .prefixOp t "-" name
    let print : Node :=
      .call t (.identifier ⟨t, "puts"⟩) [.integer t 1]
    let e : Value := .error 0 "identifier not found: nope"
    let after : Machine := { Machine.new with nextIdentity := 1 }
    Eval.evaluateWithin 3 (.array t [minus, print])
        Machine.root .new =
      .ok e after := by
  let := Platform.usual
  intro t name minus print e after
  exact (error_ends_evaluation 3 (.array t [minus, print])
    Machine.root .new after
    [.begins (.array t [minus, print]) minus Machine.root .new,
      .begins minus name Machine.root .new,
      .acts .new after]
    [.yields (.array t [minus, print]) minus Machine.root e
      after]
    minus name Machine.root e rfl rfl).1

end Monkey
