import Monkey.Table
import Monkey.Value.Basic

/-
  Scopes and chains of scopes.

  A scope binds names to values and may have an outer scope.
  Scopes live in an array and refer to each other by position,
  always to an earlier one, so following outer scopes ends.
  `lookup` finds the innermost binding along such a chain.
-/

namespace Monkey

------------------------------------------------------------
-- One Scope
------------------------------------------------------------

/- The bindings of a scope, in the order in which the names
   came up, and the scope around it. -/
structure Scope where
  outer : Option ScopeId
  bindings : Table String Value

namespace Scope

/- Bind a name in a scope. -/
def define
    (scope : Scope)
    (name : String)
    (value : Value) :
    Scope :=
  { scope with
    bindings := scope.bindings.insert name value }

/- The value bound to a name in a scope itself. -/
def find?
    (scope : Scope)
    (name : String) :
    Option Value :=
  scope.bindings.find? name

/- A scope without bindings. -/
def empty (outer : Option ScopeId) : Scope where
  outer := outer
  bindings := []

end Scope

------------------------------------------------------------
-- Chains of Scopes
------------------------------------------------------------

/- All scopes, in the order in which they were made. -/
abbrev Scopes := Array Scope

namespace Scopes

/- Look a name up along at most a number of scopes. -/
def lookupWithin
    (scopes : Scopes)
    (name : String) :
    Nat → ScopeId → Option Value
  | 0, _ => none
  | steps + 1, id =>
      match scopes[id]? with
      | none => none
      | some scope =>
          match scope.find? name, scope.outer with
          | some value, _ => some value
          | none, none => none
          | none, some outer =>
              lookupWithin scopes name steps outer

/- The value of a name as seen from a scope.  The chain from
   position `id` has at most `id + 1` scopes. -/
def lookup
    (scopes : Scopes)
    (id : ScopeId)
    (name : String) :
    Option Value :=
  scopes.lookupWithin name (id + 1) id

end Scopes

end Monkey
