import Monkey.Machine.Scope
import Monkey.Value.Failure

/-
  The state that programs change, and computations on it.

  A `Machine` holds all scopes, the text printed so far, and the
  next identity to give out.  `Eval` is a computation on it; when
  one fails, what it has done before stays done.
-/

namespace Monkey

------------------------------------------------------------
-- Machines
------------------------------------------------------------

/- The scopes, the printed text, and the next identity. -/
structure Machine where
  scopes : Scopes
  output : String
  nextIdentity : Identity

namespace Machine

/- The outermost scope of a new machine. -/
def root : ScopeId := 0

/- A machine with one empty scope, `root`. -/
def new : Machine where
  scopes := #[Scope.empty none]
  output := ""
  nextIdentity := 0

/- The bindings of a scope itself. -/
def bindings
    (m : Machine)
    (id : ScopeId) :
    Table String Value :=
  match m.scopes[id]? with
  | some scope => scope.bindings
  | none => []

/- Forget the printed text. -/
def clearOutput (m : Machine) : Machine :=
  { m with output := "" }

end Machine

------------------------------------------------------------
-- Computations
------------------------------------------------------------

/- A computation on a machine, which may fail. -/
abbrev Eval := EStateM Failure Machine

namespace Eval

/- An identity that no object has. -/
def fresh : Eval Identity := do
  let m ← get
  set { m with nextIdentity := m.nextIdentity + 1 }
  return m.nextIdentity

/- An error value. -/
def raise (message : String) : Eval Value := do
  return .error (← fresh) message

/- Make an empty scope, inside another one or on its own. -/
def newScope (outer : Option ScopeId) : Eval ScopeId :=
  modifyGet fun m =>
    (m.scopes.size,
      { m with scopes := m.scopes.push (.empty outer) })

/- Bind a name in a scope. -/
def define
    (id : ScopeId)
    (name : String)
    (value : Value) :
    Eval Unit :=
  modify fun m =>
    { m with
      scopes := m.scopes.modify id (·.define name value) }

/- The value of a name as seen from a scope. -/
def lookup
    (id : ScopeId)
    (name : String) :
    Eval (Option Value) := do
  return (← get).scopes.lookup id name

/- Whether a name has a value as seen from a scope. -/
def isBound
    (id : ScopeId)
    (name : String) :
    Eval Bool := do
  return (← lookup id name).isSome

/- Print a line. -/
def printLine (text : String) : Eval Unit :=
  modify fun m =>
    { m with output := m.output ++ text ++ "\n" }

/- The result of a computation that uses no state. -/
def ofExcept
    {α : Type}
    (result : Except Failure α) :
    Eval α :=
  match result with
  | .ok a => pure a
  | .error f => throw f

end Eval

end Monkey
