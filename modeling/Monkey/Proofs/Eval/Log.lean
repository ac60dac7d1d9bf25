import Monkey.Proofs.Eval.Simulation

/-
  A log of what happens during an evaluation.

  `Logged` is `Eval` with a record of every step: where the
  evaluation of a part begins, what it yields, and every access
  to the machine.  Since the rules are the same, leaving out the
  log gives back the evaluation itself.

  Main declarations:
    * `Event`
    * `Logged`
    * `Eval.evaluateLogged`
    * `Eval.evaluateLogged_result`
-/

namespace Monkey

------------------------------------------------------------
-- Events
------------------------------------------------------------

/-
  What can happen: the evaluation of a part of a node in a
  scope begins, or yields a value, or a step changes the
  machine, if only by giving out an identity.
-/
inductive Event where
  | begins
      (parent : Node)
      (part : Node)
      (scope : ScopeId)
      (m : Machine)
  | yields
      (parent : Node)
      (part : Node)
      (scope : ScopeId)
      (v : Value)
      (m : Machine)
  | acts (before : Machine) (after : Machine)

------------------------------------------------------------
-- Logged Computations
------------------------------------------------------------

/- A computation on a machine, and the events in it. -/
def Logged (α : Type) : Type :=
  Machine → List Event × EStateM.Result Failure Machine α

namespace Logged

variable {α β : Type}

/- Go on with a logged result. -/
def andThen
    (x : List Event × EStateM.Result Failure Machine α)
    (f : α → Logged β) :
    List Event × EStateM.Result Failure Machine β :=
  match x.2 with
  | .ok a m => (x.1 ++ (f a m).1, (f a m).2)
  | .error e m => (x.1, .error e m)

/- The machine of a result. -/
def machineOf :
    EStateM.Result Failure Machine α → Machine
  | .ok _ m => m
  | .error _ m => m

instance : Monad Logged where
  pure a := fun m => ([], .ok a m)
  bind x f := fun m => andThen (x m) f

instance : MonadLift Eval Logged where
  monadLift x := fun m =>
    ([.acts m (machineOf (x m))], x m)

/- The computation without its log. -/
def result (x : Logged α) : Eval α :=
  fun m => (x m).2

/- Put down what happens at the machine as it is. -/
def note (event : Machine → Event) : Logged Unit :=
  fun m => ([event m], .ok () m)

/- The evaluation of a part, with its beginning and end. -/
def part
    (parent : Node)
    (eval : Node → ScopeId → Logged Value)
    (node : Node)
    (scope : ScopeId) :
    Logged Value := do
  note (.begins parent node scope)
  let v ← eval node scope
  note (.yields parent node scope v)
  return v

------------------------------------------------------------
-- Steps of a Log
------------------------------------------------------------

/- After a value its log is gone on with. -/
theorem bind_of_ok
    {x : Logged α}
    {m m' : Machine}
    {a : α}
    (h : (x m).2 = .ok a m')
    (f : α → Logged β) :
    (x >>= f) m = ((x m).1 ++ (f a m').1, (f a m').2) := by
  change andThen (x m) f = _
  unfold andThen
  rw [h]

/- After a failure nothing happens. -/
theorem bind_of_error
    {x : Logged α}
    {m m' : Machine}
    {failure : Failure}
    (h : (x m).2 = .error failure m')
    (f : α → Logged β) :
    (x >>= f) m = ((x m).1, .error failure m') := by
  change andThen (x m) f = _
  unfold andThen
  rw [h]

/- The evaluation of a part that yields a value. -/
theorem part_of_ok
    {eval : Node → ScopeId → Logged Value}
    {node : Node}
    {scope : ScopeId}
    {m m' : Machine}
    {v : Value}
    (h : (eval node scope m).2 = .ok v m')
    (parent : Node) :
    part parent eval node scope m =
      (.begins parent node scope m ::
          ((eval node scope m).1 ++
            [.yields parent node scope v m']),
        .ok v m') := by
  have hBegins :
      (note (.begins parent node scope) m).2 = .ok () m := rfl
  rw [part, bind_of_ok hBegins, bind_of_ok h]
  rfl

------------------------------------------------------------
-- Leaving Out the Log
------------------------------------------------------------

/- A logged computation and what it is without its log. -/
def erasure : Eval.Simulation Logged Eval where
  rel x y := x.result = y
  pure _ := rfl
  bind := by
    intro α β x y f g hx hf
    funext m
    subst hx
    change (andThen (x m) f).2 = EStateM.bind _ _ m
    unfold andThen EStateM.bind result
    cases (x m).2 with
    | ok a m' => exact congrFun (hf a) m'
    | error e m' => rfl
  lift _ := rfl

theorem part_result
    (parent : Node)
    (eval : Node → ScopeId → Logged Value)
    (node : Node)
    (scope : ScopeId) :
    (part parent eval node scope).result =
      (eval node scope).result := by
  funext m
  change (andThen (eval node scope m) _).2 =
    (eval node scope m).2
  unfold andThen
  cases (eval node scope m).2 <;> rfl

end Logged

------------------------------------------------------------
-- Logged Evaluation
------------------------------------------------------------

variable [Platform]

namespace Eval

/- Evaluate a node, and keep a log. -/
def evaluateLogged : Nat → Node → ScopeId → Logged Value
  | 0, _, _ => liftM (throw .tooDeep : Eval Value)
  | depth + 1, node, scope =>
      step (Logged.part node (evaluateLogged depth)) depth node
        scope

/- A log changes nothing. -/
theorem evaluateLogged_result
    (depth : Nat)
    (node : Node)
    (scope : ScopeId) :
    (evaluateLogged depth node scope).result =
      evaluateWithin depth node scope := by
  induction depth generalizing node scope with
  | zero => rfl
  | succ depth ih =>
      refine Logged.erasure.step (fun n s => ?_) depth node
        scope
      change (Logged.part _ _ n s).result = _
      rw [Logged.part_result, ih]

/- The parts of a node are evaluated as without a log. -/
theorem part_evaluateLogged_result
    (parent : Node)
    (depth : Nat) :
    (fun n s =>
        (Logged.part parent (evaluateLogged depth) n s).result) =
      evaluateWithin depth := by
  funext n s
  rw [Logged.part_result, evaluateLogged_result]

end Eval

end Monkey
