import Monkey.Proofs.Eval.HashLookup
import Monkey.Proofs.Machine.Translation

/-
  Scopes and what was done to them.

  A `ScopeHistory` tells in which order scopes were made inside of
  others and names defined in them.  Looking a name up does not
  depend on it any further than it says who encloses whom and
  what was defined last: a name means what was defined last in
  the nearest scope around that defines it.

  Main declarations:
    * `ScopeHistory`
    * `ScopeHistory.Shows`
    * `ScopeHistory.Means`
    * `ScopeHistory.means_lookup`
    * `ScopeHistory.lookup_defined_ne`
    * `lookup_nearest`
-/

namespace Monkey

------------------------------------------------------------
-- Histories
------------------------------------------------------------

/-
  What was done to scopes, which are numbered in the order in
  which they were made, from an outermost one on.  The parameter
  is how many there are, and only those can be worked on.
-/
inductive ScopeHistory : Nat → Type
  | root : ScopeHistory 1
  | enclosed
      {n : Nat}
      (before : ScopeHistory n)
      (outer : Fin n) :
      ScopeHistory (n + 1)
  | defined
      {n : Nat}
      (before : ScopeHistory n)
      (scope : Fin n)
      (name : String)
      (value : Value) :
      ScopeHistory n

namespace ScopeHistory

variable {n : Nat}

/- Do all of it. -/
def replay {n : Nat} : ScopeHistory n → Eval Unit
  | root => pure ()
  | enclosed before outer => do
      before.replay
      discard (Eval.newScope (some outer.val))
  | defined before scope name value => do
      before.replay
      Eval.define scope.val name value

/- The scopes that there are then. -/
def scopes {n : Nat} : ScopeHistory n → Scopes
  | root => #[Scope.empty none]
  | enclosed before outer =>
      before.scopes.push (.empty (some outer.val))
  | defined before scope name value =>
      before.scopes.modify scope.val (·.define name value)

/- The scope in which a scope was made. -/
def outer? {n : Nat} :
    ScopeHistory n → ScopeId → Option ScopeId
  | root, _ => none
  | @enclosed n before outer, id =>
      if id = n then some outer.val else before.outer? id
  | defined before _ _ _, id => before.outer? id

/- The value that a name was given last in a scope. -/
def latest {n : Nat} :
    ScopeHistory n → ScopeId → String → Option Value
  | root, _, _ => none
  | enclosed before _, id, name => before.latest id name
  | defined before scope other value, id, name =>
      if scope.val = id ∧ other = name then
        some value
      else
        before.latest id name

/- The scopes from one on outwards. -/
inductive Chain
    (h : ScopeHistory n) :
    ScopeId → ScopeId → Prop
  | here
      {id : ScopeId} :
      Chain h id id
  | outward
      {id outer other : ScopeId}
      (hOuter : h.outer? id = some outer)
      (hMore : Chain h outer other) :
      Chain h id other

/- A scope comes before another one on the way outwards. -/
def Nearer
    (h : ScopeHistory n)
    (id nearer farther : ScopeId) : Prop :=
  h.Chain id nearer ∧ h.Chain nearer farther ∧
    nearer ≠ farther

/- A name that has a value in an outer scope has none in all
   that come before. -/
structure Shows
    (h : ScopeHistory n)
    (id : ScopeId)
    (name : String)
    (scope : ScopeId) : Prop where
  chain : h.Chain id scope
  none_nearer :
    ∀ nearer, h.Nearer id nearer scope →
      h.latest nearer name = none

/-
  What a name means in a scope: the value it was given last in
  the nearest scope outwards where it was given one.  It means
  nothing if it was given none in all of them.
-/
def Means
    (h : ScopeHistory n)
    (id : ScopeId)
    (name : String) :
    Option Value → Prop
  | some v =>
      ∃ scope, h.Shows id name scope ∧
        h.latest scope name = some v
  | none =>
      ∀ scope, h.Chain id scope → h.latest scope name = none

------------------------------------------------------------
-- Scopes of a History
------------------------------------------------------------

variable (h : ScopeHistory n)

theorem replay_eq :
    h.replay .new =
      .ok () { Machine.new with scopes := h.scopes } := by
  induction h with
  | root => rfl
  | enclosed before outer ih =>
      change EStateM.bind before.replay _ Machine.new = _
      rw [EStateM.bind, ih]
      rfl
  | defined before scope name value ih =>
      change EStateM.bind before.replay _ Machine.new = _
      rw [EStateM.bind, ih]
      rfl

theorem size_scopes : h.scopes.size = n := by
  induction h with
  | root => rfl
  | enclosed before outer ih =>
      rw [scopes, Array.size_push, ih]
  | defined before scope name value ih =>
      rw [scopes, Array.size_modify, ih]

/- Every scope was made inside of an earlier one. -/
theorem ordered_scopes : h.scopes.Ordered := by
  induction h with
  | root => exact Scopes.ordered_root []
  | enclosed before outer ih =>
      refine ih.push ?_
      rintro _ ⟨⟩
      rw [size_scopes]
      exact outer.isLt
  | defined before scope name value ih =>
      exact ih.modify scope.val name value

/- Nothing is defined in a scope that is still to be made. -/
theorem latest_of_le
    {id : ScopeId}
    (hId : n ≤ id)
    (name : String) :
    h.latest id name = none := by
  induction h with
  | root => rfl
  | enclosed before outer ih => exact ih (Nat.le_of_succ_le hId)
  | defined before scope other value ih =>
      have hOther : scope.val ≠ id := by omega
      unfold latest
      rw [if_neg (hOther ·.1), ih hId]

/- Each scope has the outer scope and the values of the
   history. -/
theorem exists_scope
    {id : ScopeId}
    (hId : id < n) :
    ∃ scope, h.scopes[id]? = some scope ∧
      scope.outer = h.outer? id ∧
      ∀ name, scope.find? name = h.latest id name := by
  induction h generalizing id with
  | root =>
      obtain rfl : id = 0 := Nat.lt_one_iff.mp hId
      exact ⟨.empty none, rfl, rfl, fun _ => rfl⟩
  | @enclosed n before outer ih =>
      unfold scopes outer? latest
      rw [Array.getElem?_push, size_scopes]
      by_cases hLast : id = n
      · refine ⟨.empty (some outer.val), if_pos hLast,
          (if_pos hLast).symm, fun name => ?_⟩
        rw [hLast, before.latest_of_le (Nat.le_refl n)]
        rfl
      · rw [if_neg hLast, if_neg hLast]
        exact ih
          (Nat.lt_of_le_of_ne (Nat.le_of_lt_succ hId) hLast)
  | defined before scope other value ih =>
      rcases ih hId with ⟨old, hScope, hOuter, hFind⟩
      unfold scopes outer? latest
      rw [Array.getElem?_modify, hScope]
      by_cases hHere : scope.val = id
      · refine ⟨old.define other value, if_pos hHere, hOuter,
          fun name => ?_⟩
        rw [← hFind]
        simp only [hHere, true_and]
        exact Table.find?_insert ..
      · refine ⟨old, if_neg hHere, hOuter, fun name => ?_⟩
        rw [← hFind, if_neg (hHere ·.1)]

/- An outer scope is an earlier one. -/
theorem outer?_lt
    {id outer : ScopeId}
    (hId : id < n)
    (hOuter : h.outer? id = some outer) :
    outer < id := by
  rcases h.exists_scope hId with ⟨scope, hScope, hSame, -⟩
  exact h.ordered_scopes id scope outer hScope
    (hSame.trans hOuter)

------------------------------------------------------------
-- Looking Up
------------------------------------------------------------

/- A name is looked up in the scope itself and then in the one
   around it. -/
theorem lookup_eq
    {id : ScopeId}
    (hId : id < n)
    (name : String) :
    h.scopes.lookup id name =
      (h.latest id name).or
        ((h.outer? id).bind (h.scopes.lookup · name)) := by
  rcases h.exists_scope hId with ⟨scope, hScope, hOuter, hFind⟩
  rw [← hFind, ← hOuter]
  exact h.ordered_scopes.lookup_eq hScope name

------------------------------------------------------------
-- Chains
------------------------------------------------------------

variable {h}
variable {id id' : ScopeId}

theorem Chain.le
    (hChain : h.Chain id id')
    (hId : id < n) :
    id' ≤ id := by
  induction hChain with
  | here => exact Nat.le_refl _
  | outward hOuter _ ih =>
      have hLess := h.outer?_lt hId hOuter
      exact Nat.le_trans (ih (Nat.lt_trans hLess hId))
        (Nat.le_of_lt hLess)

/- No scope is before itself. -/
theorem not_nearer_self
    (hId : id < n)
    {nearer : ScopeId} :
    ¬ h.Nearer id nearer id := by
  rintro ⟨hChain, hBack, hNe⟩
  have hLe := hChain.le hId
  exact hNe
    (Nat.le_antisymm hLe (hBack.le (Nat.lt_of_le_of_lt hLe hId)))

/- Nothing comes between a scope and itself. -/
theorem shows_self
    (hId : id < n)
    (name : String) :
    h.Shows id name id where
  chain := .here
  none_nearer _ hNearer := absurd hNearer (not_nearer_self hId)

/- A scope in which a name has no value hides nothing. -/
theorem Shows.outward
    {name : String}
    {outer scope : ScopeId}
    (hShows : h.Shows outer name scope)
    (hOuter : h.outer? id = some outer)
    (hLatest : h.latest id name = none) :
    h.Shows id name scope where
  chain := .outward hOuter hShows.chain
  none_nearer := by
    rintro nearer ⟨hChain, hOn, hNe⟩
    cases hChain with
    | here => exact hLatest
    | outward hOuter' hMore =>
        cases hOuter.symm.trans hOuter'
        exact hShows.none_nearer nearer ⟨hMore, hOn, hNe⟩

/- Where a name has no value it means what it means around. -/
theorem Means.outward
    {name : String}
    {outer : ScopeId}
    {found : Option Value}
    (hMeans : h.Means outer name found)
    (hOuter : h.outer? id = some outer)
    (hLatest : h.latest id name = none) :
    h.Means id name found := by
  cases found with
  | none =>
      intro scope hChain
      cases hChain with
      | here => exact hLatest
      | outward hOuter' hMore =>
          cases hOuter.symm.trans hOuter'
          exact hMeans scope hMore
  | some v =>
      rcases hMeans with ⟨scope, hShows, hValue⟩
      exact ⟨scope, hShows.outward hOuter hLatest, hValue⟩

/- In the outermost scope it then means nothing. -/
theorem means_none
    {name : String}
    (hOuter : h.outer? id = none)
    (hLatest : h.latest id name = none) :
    h.Means id name none := by
  intro scope hChain
  cases hChain with
  | here => exact hLatest
  | outward hOuter' =>
      rw [hOuter] at hOuter'
      cases hOuter'

/- What is looked up is what a name means. -/
theorem means_lookup
    (hId : id < n)
    (name : String) :
    h.Means id name (h.scopes.lookup id name) := by
  induction id using Nat.strongRecOn with
  | _ id ih =>
      rw [h.lookup_eq hId]
      cases hLatest : h.latest id name with
      | some v => exact ⟨id, shows_self hId name, hLatest⟩
      | none =>
          cases hOuter : h.outer? id with
          | none => exact means_none hOuter hLatest
          | some outer =>
              have hLess := h.outer?_lt hId hOuter
              have hMeans := ih outer hLess (Nat.lt_trans hLess hId)
              exact hMeans.outward hOuter hLatest

/- A definition changes what its own name means, where it shows,
   and nothing else. -/
theorem lookup_defined_ne
    {scope : Fin n}
    {name other : String}
    {v : Value}
    (hId : id < n)
    (hNe :
      (h.defined scope other v).scopes.lookup id name ≠
        h.scopes.lookup id name) :
    name = other ∧ h.Shows id other scope := by
  induction id using Nat.strongRecOn with
  | _ id ih =>
      have hSame :
          (h.defined scope other v).outer? id = h.outer? id :=
        rfl
      have hNow :
          (h.defined scope other v).latest id name =
            if scope.val = id ∧ other = name then
              some v
            else
              h.latest id name :=
        rfl
      rw [lookup_eq _ hId, lookup_eq _ hId, hSame, hNow] at hNe
      by_cases hHere : scope.val = id ∧ other = name
      · rcases hHere with ⟨rfl, rfl⟩
        exact ⟨rfl, shows_self hId _⟩
      · rw [if_neg hHere] at hNe
        cases hLatest : h.latest id name with
        | some w => simp [hLatest] at hNe
        | none =>
            cases hOuter : h.outer? id with
            | none => simp [hOuter] at hNe
            | some outer =>
                have hLess := h.outer?_lt hId hOuter
                simp only [hLatest, hOuter, Option.none_or,
                  Option.bind_some] at hNe
                rcases ih outer hLess (Nat.lt_trans hLess hId) hNe
                  with ⟨rfl, hShows⟩
                exact ⟨rfl, hShows.outward hOuter hLatest⟩

end ScopeHistory

------------------------------------------------------------
-- Names in Nested Scopes
------------------------------------------------------------

/-
  After any history every name means, in every scope, what was
  defined last in the nearest scope outwards that defines it, and
  is bound just if there is one.  A scope that is made next gets
  the next number.  A definition that is made next only changes
  what its own name means, in scopes that it can be reached from,
  past none that defines the name.
-/
theorem lookup_nearest
    {n : Nat}
    (h : ScopeHistory n)
    (id : Fin n)
    (name : String) :
    ∃ m found,
      h.replay .new = .ok () m ∧
        Eval.lookup id name m = .ok found m ∧
        Eval.isBound id name m = .ok found.isSome m ∧
        h.Means id name found ∧
        (∀ outer : Fin n, ∃ m',
          Eval.newScope (some outer.val) m = .ok n m' ∧
            (h.enclosed outer).replay .new = .ok () m') ∧
        ∀ (scope : Fin n) (other : String) (v : Value),
          ∃ m' found',
            (h.defined scope other v).replay .new = .ok () m' ∧
              Eval.lookup id name m' = .ok found' m' ∧
              (found' ≠ found →
                name = other ∧ h.Chain id scope ∧
                  ∀ nearer, h.Nearer id nearer scope →
                    h.latest nearer other = none) := by
  refine ⟨_, _, h.replay_eq, rfl, rfl,
    ScopeHistory.means_lookup id.isLt name, fun outer => ?_,
    fun scope other v => ?_⟩
  · refine ⟨_, ?_, (h.enclosed outer).replay_eq⟩
    exact congrArg (EStateM.Result.ok · _) h.size_scopes
  · refine ⟨_, _, (h.defined scope other v).replay_eq, rfl,
      fun hNe => ?_⟩
    rcases ScopeHistory.lookup_defined_ne id.isLt hNe with
      ⟨hName, hShows⟩
    exact ⟨hName, hShows.chain, hShows.none_nearer⟩

/- An outer definition that comes later does not show behind an
   inner one, and shows beside it. -/
example :
    let h :=
      (((ScopeHistory.root.enclosed 0).enclosed 0).defined 1 "x"
        (.int 1)).defined 0 "x" (.int 2)
    h.scopes.lookup 1 "x" = some (.int 1) ∧
      h.scopes.lookup 2 "x" = some (.int 2) :=
  ⟨rfl, rfl⟩

end Monkey
