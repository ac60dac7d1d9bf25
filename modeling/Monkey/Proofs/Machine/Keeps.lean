import Monkey.Eval.Node
import Monkey.Proofs.Value.Within

/-
  What steps of the machine keep.

  A machine `Holds` a property in a set of scopes if everything
  bound there has it and the set leads to no other scopes.  The
  steps of the machine, and the builtin functions, keep that
  where they work on scopes of the set and on values with the
  property.  A `Regime` names the property and the set, and what
  else an evaluation keeps to.

  Main declarations:
    * `Machine.Holds`
    * `Regime`
    * `Eval.Keeps`
    * `Eval.keeps_lookup`
    * `Builtin.keeps_call`
-/

namespace Monkey

------------------------------------------------------------
-- Machines
------------------------------------------------------------

/-
  Everything bound in the scopes in `inside` has a property,
  and outer scopes of these are among them, as are the scopes
  still to be made.
-/
structure Machine.Holds
    (ok : Value → Prop)
    (inside : ScopeId → Prop)
    (m : Machine) : Prop where
  values :
    ∀ id, inside id → ∀ entry ∈ m.bindings id,
      entry.2.Within ok
  outer :
    ∀ id scope outer, inside id →
      m.scopes[id]? = some scope →
      scope.outer = some outer → inside outer
  fresh : ∀ id, m.scopes.size ≤ id → inside id

namespace Machine

variable {ok : Value → Prop}
variable {inside : ScopeId → Prop}
variable {m : Machine}

theorem bindings_eq
    {id : ScopeId}
    {scope : Scope}
    (h : m.scopes[id]? = some scope) :
    m.bindings id = scope.bindings := by
  unfold bindings
  rw [h]

theorem Holds.mono
    (h : m.Holds ok inside)
    {wider : Value → Prop}
    (hWider : ∀ v, ok v → wider v) :
    m.Holds wider inside where
  values id hInside entry hEntry :=
    (h.values id hInside entry hEntry).mono hWider
  outer := h.outer
  fresh := h.fresh

/- In a new machine nothing is bound. -/
theorem holds_new :
    new.Holds ok fun _ => True where
  values id _ entry hEntry := by
    cases id <;> cases hEntry
  outer _ _ _ _ _ _ := trivial
  fresh _ _ := trivial

/- A name means something with the property. -/
theorem Holds.lookupWithin
    (h : m.Holds ok inside)
    {name : String}
    {steps : Nat}
    {id : ScopeId}
    {v : Value}
    (hInside : inside id)
    (hFound :
      m.scopes.lookupWithin name steps id = some v) :
    v.Within ok := by
  induction steps generalizing id with
  | zero => simp [Scopes.lookupWithin] at hFound
  | succ steps ih =>
      unfold Scopes.lookupWithin at hFound
      split at hFound
      · cases hFound
      · next scope hScope =>
          split at hFound
          · next value outer hValue =>
              cases hFound
              refine h.values id hInside (name, v) ?_
              rw [bindings_eq hScope]
              exact Table.mem_of_find? hValue
          · cases hFound
          · next outer _ hOuter =>
              exact ih (h.outer id scope outer hInside hScope
                hOuter) hFound

/- Binding a name to something with the property. -/
theorem Holds.define
    (h : m.Holds ok inside)
    (id : ScopeId)
    (name : String)
    {v : Value}
    (hValue : v.Within ok) :
    Holds ok inside
      { m with
        scopes := m.scopes.modify id (·.define name v) } := by
  refine ⟨?_, ?_, ?_⟩
  · intro id' hInside entry hEntry
    unfold bindings at hEntry
    rw [Array.getElem?_modify] at hEntry
    cases hScope : m.scopes[id']? with
    | none => simp [hScope] at hEntry
    | some scope =>
        have hOld :
            ∀ entry ∈ scope.bindings, entry.2.Within ok := by
          rw [← bindings_eq hScope]
          exact h.values id' hInside
        by_cases hId : id = id'
        · simp only [hScope, hId, if_true, Option.map_some]
            at hEntry
          rcases Table.mem_insert hEntry with rfl | hBefore
          · exact hValue
          · exact hOld entry hBefore
        · simp only [hScope, hId, if_false] at hEntry
          exact hOld entry hEntry
  · intro id' scope outer hInside hScope hOuter
    rw [Array.getElem?_modify] at hScope
    cases hBefore : m.scopes[id']? with
    | none => simp [hBefore] at hScope
    | some before =>
        refine h.outer id' before outer hInside hBefore ?_
        simp only [hBefore, Option.map_some] at hScope
        split at hScope <;> cases hScope <;> exact hOuter
  · intro id' hSize
    rw [Array.size_modify] at hSize
    exact h.fresh id' hSize

/- A new scope around which there is one of the set. -/
theorem Holds.newScope
    (h : m.Holds ok inside)
    {outer : Option ScopeId}
    (hOuter : ∀ id ∈ outer, inside id) :
    Holds ok inside
      { m with scopes := m.scopes.push (.empty outer) } := by
  refine ⟨?_, ?_, ?_⟩
  · intro id hInside entry hEntry
    unfold bindings at hEntry
    rw [Array.getElem?_push] at hEntry
    split at hEntry
    · next scope hScope =>
        split at hScope
        · cases hScope
          simp [Scope.empty] at hEntry
        · refine h.values id hInside entry ?_
          rw [bindings_eq hScope]
          exact hEntry
    · simp at hEntry
  · intro id scope outer' hInside hScope hEq
    rw [Array.getElem?_push] at hScope
    split at hScope
    · cases hScope
      exact hOuter outer' hEq
    · exact h.outer id scope outer' hInside hScope hEq
  · intro id hSize
    rw [Array.size_push] at hSize
    exact h.fresh id (Nat.le_of_succ_le hSize)

end Machine

------------------------------------------------------------
-- Computations
------------------------------------------------------------

/-
  What an evaluation keeps to: a property of all values that it
  binds or puts into others, the scopes it comes to, the nodes
  it evaluates, and the failures it may end in.
-/
structure Regime where
  ok : Value → Prop
  inside : ScopeId → Prop
  code : Node → Prop
  stop : Failure → Prop

/- The machines that a regime is about. -/
def Regime.Holds (R : Regime) (m : Machine) : Prop :=
  m.Holds R.ok R.inside

/- A result whose machine is one of a regime, and whose value or
   failure is as wanted. -/
def Lands
    {α : Type}
    (R : Regime)
    (good : α → Prop) :
    EStateM.Result Failure Machine α → Prop
  | .ok a m => R.Holds m ∧ good a
  | .error f m => R.Holds m ∧ R.stop f

theorem Lands.mono
    {α : Type}
    {R : Regime}
    {good wider : α → Prop}
    {r : EStateM.Result Failure Machine α}
    (h : Lands R good r)
    (hWider : ∀ a, good a → wider a) :
    Lands R wider r := by
  cases r with
  | error f m => exact h
  | ok a m => exact ⟨h.1, hWider a h.2⟩

namespace Eval

/- A computation keeps to a regime, also when it fails, and
   gives what is wanted. -/
def Keeps
    {α : Type}
    (R : Regime)
    (good : α → Prop)
    (x : Eval α) : Prop :=
  ∀ m, R.Holds m → Lands R good (x m)

namespace Keeps

variable {α β : Type}
variable {R : Regime}
variable {good : α → Prop}
variable {good' : β → Prop}

theorem pure
    {a : α}
    (h : good a) :
    Keeps R good (Pure.pure a) :=
  fun _ hHolds => ⟨hHolds, h⟩

theorem throw
    {f : Failure}
    (h : R.stop f) :
    Keeps R good (MonadExcept.throw f) :=
  fun _ hHolds => ⟨hHolds, h⟩

theorem bind
    {x : Eval α}
    {f : α → Eval β}
    (hx : Keeps R good x)
    (hf : ∀ a, good a → Keeps R good' (f a)) :
    Keeps R good' (x >>= f) := by
  intro m hHolds
  have hFirst := hx m hHolds
  change Lands R good' (EStateM.bind x f m)
  unfold EStateM.bind
  cases hResult : x m with
  | error e m' =>
      rw [hResult] at hFirst
      exact hFirst
  | ok a m' =>
      rw [hResult] at hFirst
      exact hf a hFirst.2 m' hFirst.1

theorem mono
    {wider : α → Prop}
    {x : Eval α}
    (hx : Keeps R good x)
    (hWider : ∀ a, good a → wider a) :
    Keeps R wider x :=
  fun m hHolds => (hx m hHolds).mono hWider

end Keeps

------------------------------------------------------------
-- Steps of the Machine
------------------------------------------------------------

variable {R : Regime}

theorem keeps_fresh :
    Keeps R (fun _ => True) fresh :=
  fun _ h => ⟨⟨h.values, h.outer, h.fresh⟩, trivial⟩

theorem keeps_printLine
    (text : String) :
    Keeps R (fun _ => True) (printLine text) :=
  fun _ h => ⟨⟨h.values, h.outer, h.fresh⟩, trivial⟩

theorem keeps_ofExcept
    {α : Type}
    {result : Except Failure α}
    (hStop : ∀ f, result = .error f → R.stop f) :
    Keeps R (fun _ => True) (ofExcept result) := by
  cases result with
  | ok a => exact .pure trivial
  | error f => exact .throw (hStop f rfl)

theorem keeps_raise
    (message : String) :
    Keeps R (fun v => v.isError = true) (raise message) :=
  .bind keeps_fresh fun _ _ => .pure rfl

theorem keeps_newScope
    {outer : ScopeId}
    (hOuter : R.inside outer) :
    Keeps R R.inside (newScope (some outer)) := by
  intro m h
  refine ⟨h.newScope ?_, h.fresh _ (Nat.le_refl _)⟩
  rintro id hId
  cases hId
  exact hOuter

theorem keeps_define
    (id : ScopeId)
    (name : String)
    {v : Value}
    (hValue : v.Within R.ok) :
    Keeps R (fun _ => True) (define id name v) :=
  fun _ h => ⟨h.define id name hValue, trivial⟩

theorem keeps_lookup
    {id : ScopeId}
    (name : String)
    (hInside : R.inside id) :
    Keeps R
      (fun found => ∀ v ∈ found, v.Within R.ok)
      (lookup id name) :=
  fun _ h =>
    ⟨h, fun _ hFound => h.lookupWithin hInside hFound⟩

theorem keeps_defineAll
    (scope : ScopeId)
    {bound : List (Identifier × Value)}
    (hBound : ∀ pair ∈ bound, pair.2.Within R.ok) :
    Keeps R (fun _ => True) (defineAll scope bound) := by
  induction bound with
  | nil => exact .pure trivial
  | cons pair rest ih =>
      rcases List.forall_mem_cons.mp hBound with
        ⟨hFirst, hRest⟩
      exact .bind (keeps_define scope _ hFirst)
        fun _ _ => ih hRest

theorem keeps_callScope
    {outer : ScopeId}
    {params : List Identifier}
    {args : List Value}
    (hOuter : R.inside outer)
    (hArgs : ∀ v ∈ args, v.Within R.ok) :
    Keeps R R.inside (callScope outer params args) := by
  refine .bind (keeps_newScope hOuter) fun scope hScope => ?_
  refine .bind (keeps_defineAll scope ?_)
    fun _ _ => .pure hScope
  intro pair hPair
  exact hArgs _ (List.of_mem_zip hPair).2

end Eval

------------------------------------------------------------
-- Builtin Functions
------------------------------------------------------------

namespace Value

/- An error, or a value with a property that may be stored. -/
def Storable
    (ok : Value → Prop)
    (v : Value) : Prop :=
  v.isError = true ∨ v.Within ok

end Value

namespace Builtin

variable {R : Regime}

theorem keeps_newArray
    (hOk : Value.Allows R.ok R.inside R.code)
    {elements : List Value}
    (hElements : ∀ v ∈ elements, v.Within R.ok) :
    Eval.Keeps R (Value.Within R.ok) (newArray elements) :=
  .bind Eval.keeps_fresh fun _ _ =>
    .pure (Value.within_array.mpr
      ⟨hOk.array _ _, hElements⟩)

/- Printing stops where a value has no line. -/
theorem keeps_printValues
    [Platform]
    {depth : Nat}
    {vs : List Value}
    (hStop :
      ∀ v ∈ vs, ∀ f, lineFor depth v = .error f → R.stop f) :
    Eval.Keeps R (fun _ => True) (printValues depth vs) := by
  induction vs with
  | nil => exact .pure trivial
  | cons v others ih =>
      rcases List.forall_mem_cons.mp hStop with
        ⟨hFirst, hOthers⟩
      exact .bind (Eval.keeps_ofExcept hFirst) fun text _ =>
        .bind (Eval.keeps_printLine text) fun _ _ => ih hOthers

theorem within_of_elementsOf
    {b : Builtin}
    {v : Value}
    {elements : List Value}
    (hValue : v.Within R.ok)
    (h : elementsOf b v = .ok elements) :
    ∀ e ∈ elements, e.Within R.ok := by
  cases v with
  | array id es =>
      cases h
      exact (Value.within_array.mp hValue).2
  | _ => cases h

theorem within_of_oneArray
    {b : Builtin}
    {args elements : List Value}
    (hArgs : ∀ v ∈ args, v.Within R.ok)
    (h : oneArray b args = .ok elements) :
    ∀ v ∈ elements, v.Within R.ok := by
  rcases args with _ | ⟨v, _ | ⟨w, rest⟩⟩
  · cases h
  · exact within_of_elementsOf (hArgs v (by simp)) h
  · cases h

theorem within_of_arrayAndValue
    {b : Builtin}
    {args elements : List Value}
    {item : Value}
    (hArgs : ∀ v ∈ args, v.Within R.ok)
    (h : arrayAndValue b args = .ok (elements, item)) :
    ∀ v ∈ elements ++ [item], v.Within R.ok := by
  rcases args with _ | ⟨v, _ | ⟨w, _ | ⟨x, rest⟩⟩⟩
  · cases h
  · cases h
  · cases hElements : elementsOf b v with
    | error e =>
        simp only [arrayAndValue, hElements] at h
        cases h
    | ok es =>
        simp only [arrayAndValue, hElements] at h
        cases h
        intro e hMem
        rcases List.mem_append.mp hMem with hMem | hMem
        · exact within_of_elementsOf (hArgs v (by simp))
            hElements e hMem
        · rw [List.mem_singleton.mp hMem]
          exact hArgs _ (by simp)
  · cases h

/- What a builtin function gives, if anything, has the
   property. -/
def Gives
    (ok : Value → Prop) :
    Except ArgumentError Value → Prop
  | .ok v => v.Within ok
  | .error _ => True

theorem gives_runLen
    (hOk : Value.Allows R.ok R.inside R.code)
    (args : List Value) :
    Gives R.ok (runLen args) := by
  rcases args with _ | ⟨w, _ | ⟨x, rest⟩⟩
  · trivial
  · cases w with
    | str s => exact Value.IsFlat.within trivial (hOk.int _)
    | _ => trivial
  · trivial

theorem keeps_giveArray
    (hOk : Value.Allows R.ok R.inside R.code)
    {elements : List Value}
    (hElements : ∀ v ∈ elements, v.Within R.ok) :
    Eval.Keeps R (Gives R.ok) do
      return .ok (← newArray elements) :=
  .bind (keeps_newArray hOk hElements)
    fun _ hWithin => .pure hWithin

/- What a builtin function gives has the property of its
   arguments, and it stops only where it cannot print one. -/
theorem keeps_run
    [Platform]
    (hOk : Value.Allows R.ok R.inside R.code)
    {depth : Nat}
    {b : Builtin}
    {args : List Value}
    (hArgs : ∀ v ∈ args, v.Within R.ok)
    (hStop :
      b = puts →
        ∀ v ∈ args, ∀ f,
          lineFor depth v = .error f → R.stop f) :
    Eval.Keeps R (Gives R.ok) (run depth b args) := by
  have hNull := Value.within_null hOk
  cases b with
  | len => exact .pure (gives_runLen hOk args)
  | first =>
      simp only [run]
      split
      · next elements hElements =>
          cases elements with
          | nil => exact .pure hNull
          | cons e rest =>
              exact .pure (within_of_oneArray hArgs hElements e
                (List.mem_cons_self ..))
      · exact .pure trivial
  | last =>
      simp only [run]
      split
      · next elements hElements =>
          have hLast :
              elements.getLastD .null ∈ .null :: elements :=
            List.getLastD_mem_cons
          rcases List.mem_cons.mp hLast with hEq | hMem
          · rw [hEq]
            exact .pure hNull
          · exact .pure
              (within_of_oneArray hArgs hElements _ hMem)
      · exact .pure trivial
  | rest =>
      simp only [run]
      split
      · exact .pure hNull
      · next e others hElements =>
          exact keeps_giveArray hOk fun v hMem =>
            within_of_oneArray hArgs hElements v
              (List.mem_cons_of_mem _ hMem)
      · exact .pure trivial
  | push =>
      simp only [run]
      split
      · next elements item hBoth =>
          exact keeps_giveArray hOk
            (within_of_arrayAndValue hArgs hBoth)
      · exact .pure trivial
  | puts =>
      exact .bind (keeps_printValues (hStop rfl))
        fun _ _ => .pure hNull

theorem keeps_call
    [Platform]
    (hOk : Value.Allows R.ok R.inside R.code)
    {depth : Nat}
    {b : Builtin}
    {args : List Value}
    (hArgs : ∀ v ∈ args, v.Within R.ok)
    (hStop :
      b = puts →
        ∀ v ∈ args, ∀ f,
          lineFor depth v = .error f → R.stop f) :
    Eval.Keeps R (Value.Storable R.ok) (call depth b args) := by
  refine .bind (keeps_run hOk hArgs hStop) fun r hRun => ?_
  cases r with
  | ok v => exact .pure (.inr hRun)
  | error e =>
      exact (Eval.keeps_raise _).mono fun _ hError =>
        .inl hError

end Builtin

end Monkey
