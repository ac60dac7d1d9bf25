import Monkey.Eval.Node
import Monkey.Proofs.Eval.HashLookup
import Monkey.Proofs.Machine.Translation

/-
  Arguments and the names that they are bound to.

  A call makes a scope inside that of the function and binds each
  parameter to the argument at its position.  If a name is given
  to several parameters then the last one that has an argument
  counts.  A name that no such parameter has means what it means
  to the function, and there nothing changes.

  Main declarations:
    * `Scope.defineAll`
    * `Eval.BindsAt`
    * `Eval.BindsLast`
    * `Scope.find?_defineAll`
    * `arguments_bound_by_position`
-/

namespace Monkey

------------------------------------------------------------
-- Positions
------------------------------------------------------------

namespace Eval

variable (params : List Identifier)
variable (args : List Value)
variable (name : String)

/- A name is that of the parameter at a position, which has an
   argument. -/
structure BindsAt (i : Nat) : Prop where
  bound : i < min params.length args.length
  named : params[i]?.map (·.name) = some name

/- It is the last such position. -/
structure BindsLast (i : Nat) : Prop extends
    BindsAt params args name i where
  last : ∀ j, BindsAt params args name j → j ≤ i

variable {params args name}
variable {param : Identifier}
variable {arg : Value}

theorem bindsAt_cons_zero :
    BindsAt (param :: params) (arg :: args) name 0 ↔
      param.name = name := by
  constructor
  · exact fun h => Option.some_inj.mp h.named
  · rintro rfl
    exact ⟨by simp, rfl⟩

theorem bindsAt_cons_succ
    {i : Nat} :
    BindsAt (param :: params) (arg :: args) name (i + 1) ↔
      BindsAt params args name i := by
  constructor
  · rintro ⟨hBound, hNamed⟩
    simp only [List.length_cons] at hBound
    exact ⟨by omega, hNamed⟩
  · rintro ⟨hBound, hNamed⟩
    refine ⟨?_, hNamed⟩
    simp only [List.length_cons]
    omega

/- Further parameters count more than the first one. -/
theorem BindsLast.cons
    {i : Nat}
    (h : BindsLast params args name i) :
    BindsLast (param :: params) (arg :: args) name (i + 1) where
  toBindsAt := bindsAt_cons_succ.mpr h.toBindsAt
  last j hj := by
    cases j with
    | zero => exact Nat.zero_le _
    | succ j =>
        exact Nat.succ_le_succ
          (h.last j (bindsAt_cons_succ.mp hj))

/- The first one counts if no further one has the name. -/
theorem bindsLast_zero
    (hFirst : param.name = name)
    (hMore : ∀ i, ¬ BindsAt params args name i) :
    BindsLast (param :: params) (arg :: args) name 0 where
  toBindsAt := bindsAt_cons_zero.mpr hFirst
  last j hj := by
    cases j with
    | zero => exact Nat.le_refl 0
    | succ j => exact absurd (bindsAt_cons_succ.mp hj) (hMore j)

theorem not_bindsAt_cons
    (hFirst : param.name ≠ name)
    (hMore : ∀ i, ¬ BindsAt params args name i)
    (i : Nat) :
    ¬ BindsAt (param :: params) (arg :: args) name i := by
  cases i with
  | zero => exact fun h => hFirst (bindsAt_cons_zero.mp h)
  | succ i => exact fun h => hMore i (bindsAt_cons_succ.mp h)

end Eval

------------------------------------------------------------
-- Bindings
------------------------------------------------------------

namespace Scope

/- Bind names in order. -/
def defineAll
    (scope : Scope)
    (bound : List (Identifier × Value)) :
    Scope :=
  bound.foldl (fun s pair => s.define pair.1.name pair.2) scope

theorem defineAll_cons
    (scope : Scope)
    (pair : Identifier × Value)
    (rest : List (Identifier × Value)) :
    scope.defineAll (pair :: rest) =
      (scope.define pair.1.name pair.2).defineAll rest :=
  rfl

theorem outer_defineAll
    (scope : Scope)
    (bound : List (Identifier × Value)) :
    (scope.defineAll bound).outer = scope.outer := by
  induction bound generalizing scope with
  | nil => rfl
  | cons pair rest ih =>
      rw [defineAll_cons, ih]
      rfl

/- A name has the argument at the last position that binds it, and
   what it had before if there is none. -/
theorem find?_defineAll
    (scope : Scope)
    (params : List Identifier)
    (args : List Value)
    (name : String) :
    (∃ i v, Eval.BindsLast params args name i ∧
      args[i]? = some v ∧
      (scope.defineAll (params.zip args)).find? name = some v) ∨
    (∀ i, ¬ Eval.BindsAt params args name i) ∧
      (scope.defineAll (params.zip args)).find? name =
        scope.find? name := by
  induction params generalizing scope args with
  | nil =>
      exact .inr ⟨fun i h => by simpa using h.bound, rfl⟩
  | cons param params ih =>
      cases args with
      | nil =>
          exact .inr ⟨fun i h => by simpa using h.bound, rfl⟩
      | cons arg args =>
          rw [List.zip_cons_cons, defineAll_cons]
          rcases ih (scope.define param.name arg) args with
            ⟨i, v, hLast, hArg, hFound⟩ | ⟨hNone, hFound⟩
          · exact .inl ⟨i + 1, v, hLast.cons, hArg, hFound⟩
          · have hFirst :
                (scope.define param.name arg).find? name =
                  if param.name = name then some arg
                  else scope.find? name :=
              Table.find?_insert ..
            rw [hFound, hFirst]
            split
            · next hName =>
                exact .inl
                  ⟨0, arg, Eval.bindsLast_zero hName hNone, rfl,
                    rfl⟩
            · next hName =>
                exact .inr
                  ⟨Eval.not_bindsAt_cons hName hNone, rfl⟩

end Scope

------------------------------------------------------------
-- The Scope of a Call
------------------------------------------------------------

namespace Eval

variable {m : Machine}

/- Names are bound in the scope that has been made last. -/
theorem defineAll_push
    (scope : Scope)
    (bound : List (Identifier × Value)) :
    defineAll m.scopes.size bound
        { m with scopes := m.scopes.push scope } =
      .ok ()
        { m with
          scopes := m.scopes.push (scope.defineAll bound) } := by
  induction bound generalizing scope with
  | nil => rfl
  | cons pair rest ih =>
      have hDefine :
          define m.scopes.size pair.1.name pair.2
              { m with scopes := m.scopes.push scope } =
            .ok ()
              { m with
                scopes :=
                  m.scopes.push
                    (scope.define pair.1.name pair.2) } := by
        change EStateM.Result.ok ()
          { m with
            scopes := (m.scopes.push scope).modify _ _ } = _
        rw [modify_push]
      change EStateM.bind
        (define m.scopes.size pair.1.name pair.2)
        (fun _ => defineAll m.scopes.size rest) _ = _
      rw [EStateM.bind, hDefine, Scope.defineAll_cons]
      exact ih _

theorem callScope_eq
    (outer : ScopeId)
    (params : List Identifier)
    (args : List Value) :
    callScope outer params args m =
      .ok m.scopes.size
        { m with
          scopes :=
            m.scopes.push
              ((Scope.empty (some outer)).defineAll
                (params.zip args)) } := by
  change EStateM.bind (defineAll m.scopes.size _) _
    { m with scopes := m.scopes.push (.empty (some outer)) } = _
  rw [EStateM.bind, defineAll_push]
  rfl

end Eval

------------------------------------------------------------
-- What Names Mean in a Call
------------------------------------------------------------

/-
  In the scope of a call a name means the argument at the last
  position, among those of both a parameter and an argument,
  whose parameter has that name.  If there is none, it means what
  it means in the scope of the function, where it goes on to mean
  that.  No scope that was there is changed.  Scopes are in order
  if each was made inside of one that was there, and a function
  refers to such a scope.
-/
theorem arguments_bound_by_position
    (outer : ScopeId)
    (params : List Identifier)
    (args : List Value)
    (m : Machine)
    (hOrdered : m.scopes.Ordered)
    (hOuter : outer < m.scopes.size) :
    ∃ scope m',
      Eval.callScope outer params args m = .ok scope m' ∧
        (∀ name,
          (∃ i v, Eval.BindsLast params args name i ∧
            args[i]? = some v ∧
            Eval.lookup scope name m' = .ok (some v) m') ∨
          (∀ i, ¬ Eval.BindsAt params args name i) ∧
            ∃ found,
              Eval.lookup outer name m = .ok found m ∧
                Eval.lookup scope name m' = .ok found m') ∧
        (∀ name,
          m'.scopes.lookup outer name =
            m.scopes.lookup outer name) ∧
        ∀ id < m.scopes.size, m'.scopes[id]? = m.scopes[id]? := by
  let bound :=
    (Scope.empty (some outer)).defineAll (params.zip args)
  let m' : Machine := { m with scopes := m.scopes.push bound }
  have hBound : bound.outer = some outer :=
    Scope.outer_defineAll ..
  have hSame :
      ∀ id < m.scopes.size, m'.scopes[id]? = m.scopes[id]? :=
    fun id hId => by
      rw [Array.getElem?_push, if_neg (Nat.ne_of_lt hId)]
  have hStays :
      ∀ name,
        m'.scopes.lookup outer name =
          m.scopes.lookup outer name :=
    hOrdered.lookup_congr hSame hOuter
  have hOrdered' : m'.scopes.Ordered :=
    hOrdered.push fun _ hEq =>
      Option.some_inj.mp (hBound.symm.trans hEq) ▸ hOuter
  have hLookup :
      ∀ name,
        m'.scopes.lookup m.scopes.size name =
          (bound.find? name).or (m.scopes.lookup outer name) := by
    intro name
    rw [hOrdered'.lookup_eq Array.getElem?_push_size, hBound,
      Option.bind_some, hStays]
  refine ⟨m.scopes.size, m', Eval.callScope_eq .., fun name => ?_,
    hStays, hSame⟩
  rcases (Scope.empty (some outer)).find?_defineAll params args
      name with
    ⟨i, v, hLast, hArg, hFound⟩ | ⟨hNone, hFound⟩
  · refine .inl ⟨i, v, hLast, hArg, ?_⟩
    change EStateM.Result.ok (m'.scopes.lookup _ name) m' = _
    rw [hLookup, hFound, Option.some_or]
  · refine .inr ⟨hNone, _, rfl, ?_⟩
    change EStateM.Result.ok (m'.scopes.lookup _ name) m' = _
    rw [hLookup, hFound]
    rfl

/- Of two parameters with one name the second one counts, and a
   parameter without an argument hides nothing. -/
theorem arguments_bound_by_position_repeated :
    letI := Platform.usual
    let bound := [("x", Value.int 8), ("w", .int 9)]
    let m : Machine := ⟨#[⟨none, bound⟩], "", 0⟩
    let params :=
      ["x", "y", "x", "w"].map fun name =>
        (⟨⟨.ident, name, 1, 1⟩, name⟩ : Identifier)
    let args := [Value.int 1, .int 2, .int 3]
    m.scopes.Ordered ∧
      0 < m.scopes.size ∧
      ∃ scope m',
        Eval.callScope 0 params args m = .ok scope m' ∧
          Eval.lookup scope "x" m' = .ok (some (.int 3)) m' ∧
          Eval.lookup scope "w" m' = .ok (some (.int 9)) m' ∧
          m'.scopes[0]? = m.scopes[0]? := by
  let := Platform.usual
  intro bound m params args
  have hOrdered : m.scopes.Ordered := Scopes.ordered_root bound
  have hRoot : 0 < m.scopes.size := by decide
  rcases arguments_bound_by_position 0 params args m hOrdered
      hRoot with
    ⟨scope, m', hCall, hNames, -, hSame⟩
  refine ⟨hOrdered, hRoot, scope, m', hCall, ?_, ?_,
    hSame 0 hRoot⟩
  · rcases hNames "x" with
      ⟨i, v, hLast, hArg, hFound⟩ | ⟨hNone, -⟩
    · have hSecond : 2 ≤ i := hLast.last 2 ⟨by decide, rfl⟩
      have hBound : i < 3 := hLast.bound
      obtain rfl : i = 2 := by omega
      cases hArg
      exact hFound
    · exact absurd ⟨by decide, rfl⟩ (hNone 2)
  · rcases hNames "w" with
      ⟨i, v, hLast, -⟩ | ⟨-, found, hOuter, hFound⟩
    · have hBound : i < 3 := hLast.bound
      have hOther : params[i]?.map (·.name) ≠ some "w" := by
        obtain rfl | rfl | rfl : i = 0 ∨ i = 1 ∨ i = 2 := by
          omega
        all_goals decide
      exact absurd hLast.named hOther
    · cases hOuter
      exact hFound

end Monkey
