import Monkey.Proofs.Eval.Log
import Monkey.Proofs.Eval.MoreLevels
import Monkey.Proofs.Machine.Keeps
import Monkey.Proofs.Syntax.Known

/-
  What evaluation keeps.

  A property of values that is allowed to hold of everything
  but errors and return marks goes on to hold of everything that
  is bound, as long as return marks without it are not stored:
  bound, or put into an array, a hash, or another return mark.
  Evaluation then ends in no failure that its regime rules out.

  What can be taken for granted of the events of an evaluation is
  a parameter, `fits`.  So a regime may speak of the very log
  that the evaluation leaves.

  Main declarations:
    * `Node.Stores`
    * `Regime.Suits`
    * `Regime.Logic`
    * `Regime.Logic.step`
    * `Regime.Logic.stepBy`
    * `Logged.Keeps`
    * `Logged.keeps_evaluateLogged`
-/

namespace Monkey

------------------------------------------------------------
-- Values on Their Way
------------------------------------------------------------

namespace Value

variable {ok : Value → Prop}
variable {v : Value}

/- What the evaluation of a part may give: something storable,
   or a return mark around something with the property. -/
def Carried
    (ok : Value → Prop)
    (v : Value) : Prop :=
  v.Storable ok ∨ ∃ id w, v = .returned id w ∧ w.Within ok

theorem Storable.carried
    (h : v.Storable ok) :
    v.Carried ok :=
  .inl h

theorem Within.carried
    (h : v.Within ok) :
    v.Carried ok :=
  .inl (.inr h)

theorem carried_of_isError
    (h : v.isError = true) :
    v.Carried ok :=
  .inl (.inl h)

theorem Storable.within
    (h : v.Storable ok)
    (hError : ¬ v.isError = true) :
    v.Within ok :=
  h.resolve_left hError

/- Without its return mark a value can be stored. -/
theorem Carried.unwrapReturned
    (h : v.Carried ok) :
    v.unwrapReturned.Storable ok := by
  rcases h with (hError | hWithin) | ⟨id, w, rfl, hWithin⟩
  · cases v with
    | error id message => exact .inl rfl
    | _ => cases hError
  · cases v with
    | returned id w => exact .inr (within_returned.mp hWithin).2
    | _ => exact .inr hWithin
  · exact .inr hWithin

/- A value that is a return mark only if that has the property
   can be stored. -/
theorem Carried.storable
    (h : v.Carried ok)
    (hMark : ∀ id w, v = .returned id w → ok v) :
    v.Storable ok := by
  rcases h with hStorable | ⟨id, w, rfl, hWithin⟩
  · exact hStorable
  · exact .inr (within_returned.mpr ⟨hMark id w rfl, hWithin⟩)

/- Nothing comes out of a return mark by indexing. -/
theorem Carried.applyIndex
    [Platform]
    {inside : ScopeId → Prop}
    {code : Node → Prop}
    {left subscript : Value}
    (hOk : Allows ok inside code)
    (hLeft : left.Carried ok)
    (hError : ¬ left.isError = true)
    (h : left.applyIndex subscript = .ok (.ok v)) :
    v.Within ok := by
  rcases hLeft with hStorable | ⟨id, w, rfl, -⟩
  · exact within_applyIndex hOk (hStorable.within hError) h
  · cases h

/- Indexing fails only where a key is asked for. -/
theorem hashKey?_of_applyIndex
    [Platform]
    {left subscript : Value}
    {f : Failure}
    (h : left.applyIndex subscript = .error f) :
    subscript.hashKey? = some (.error f) := by
  unfold applyIndex at h
  split at h
  · cases h
  · split at h
    next made hKey =>
      rw [hKey]
      cases made with
      | error e =>
          cases h
          rfl
      | ok k => cases h
    next => cases h
  · cases h

/- A return mark is no key of a hash. -/
theorem Carried.of_hashKey
    [Platform]
    {made : Except Failure HashKey}
    (h : v.Carried ok)
    (hError : ¬ v.isError = true)
    (hKey : v.hashKey? = some made) :
    v.Within ok := by
  rcases h with hStorable | ⟨id, w, rfl, -⟩
  · exact hStorable.within hError
  · cases hKey

/- A function refers to one of the scopes in `inside` and has one
   of the bodies in `code`. -/
theorem Carried.function
    {inside : ScopeId → Prop}
    {code : Node → Prop}
    {id : Identity}
    {params : List Identifier}
    {body : Node}
    {scope : ScopeId}
    (hOk : Allows ok inside code)
    (h : (Value.function id params body scope).Carried ok) :
    inside scope ∧ code body := by
  rcases h with (hError | hWithin) | ⟨_, _, hEq, -⟩
  · cases hError
  · exact (hOk.function ..).mp hWithin.self
  · cases hEq

/- What several parts give: something good, or the error that
   stopped them. -/
def GoodOrError
    {α : Type}
    (good : α → Prop) :
    Except Value α → Prop
  | .ok a => good a
  | .error stop => stop.isError = true

end Value

------------------------------------------------------------
-- Stored Parts
------------------------------------------------------------

/- The parts of a node whose values are bound, or put into an
   array, a hash, or a return mark. -/
def Node.Stores : Node → Node → Prop
  | .letStmt _ _ value, part => part = value
  | .returnStmt _ value, part => part ∈ value
  | .call _ _ args, part => part ∈ args
  | .array _ elements, part => part ∈ elements
  | .hash _ pairs, part => ∃ key, (key, part) ∈ pairs
  | _, _ => False

/- The parts of a node whose values are asked for their keys. -/
def Node.Keys : Node → Node → Prop
  | .index _ _ subscript, part => part = subscript
  | .hash _ pairs, part => ∃ value, (part, value) ∈ pairs
  | _, _ => False

/- An event that does not give a return mark to store, unless
   the mark has the property. -/
def Event.Fits
    (ok : Value → Prop)
    (e : Event) : Prop :=
  ∀ parent part scope id v m,
    e = .yields parent part scope (.returned id v) m →
    parent.Stores part → ok (.returned id v)

------------------------------------------------------------
-- Regimes of Evaluations
------------------------------------------------------------

/-
  What a regime has to be like for evaluation to keep to it,
  where all events fit: parts of its nodes are among its nodes,
  marks that are stored have its property, and it lets
  evaluation stop where nesting is too deep, at a foreign object
  it has, where a key cannot be made, and where `puts` cannot
  print.
-/
structure Regime.Suits
    [Platform]
    (R : Regime)
    (fits : Event → Prop) : Prop where
  allows : Value.Allows R.ok R.inside R.code
  parts : ∀ n, R.code n → ∀ part ∈ n.parts, R.code part
  marks : ∀ e, fits e → e.Fits R.ok
  tooDeep : R.stop .tooDeep
  foreign : R.code .foreign → R.stop .unknownNode
  keys :
    ∀ parent part scope v m f,
      fits (.yields parent part scope v m) →
      parent.Keys part →
      v.hashKey? = some (.error f) →
      R.stop f
  prints :
    ∀ t callee args scope m arg v m' depth f,
      fits (.yields (.call t callee args) callee scope
        (.builtin .puts) m) →
      arg ∈ args →
      fits (.yields (.call t callee args) arg scope v m') →
      v.Within R.ok →
      Builtin.lineFor depth v = .error f →
      R.stop f

/-
  What the evaluation of a part of a node gives: a value on its
  way, which can be stored where the node stores it, in an event
  that fits.
-/
structure Value.Given
    (R : Regime)
    (fits : Event → Prop)
    (parent part : Node)
    (scope : ScopeId)
    (v : Value) : Prop where
  carried : v.Carried R.ok
  storable : parent.Stores part → v.Storable R.ok
  seen : ∃ m, fits (.yields parent part scope v m)

/- Where all events fit, a value on its way is given, since any
   return mark may be stored. -/
theorem Value.Carried.given
    [Platform]
    {R : Regime}
    {fits : Event → Prop}
    {v : Value}
    (h : v.Carried R.ok)
    (hSuits : R.Suits fits)
    (hFits : ∀ e, fits e)
    (parent part : Node)
    (scope : ScopeId) :
    v.Given R fits parent part scope := by
  refine ⟨h, fun hStores => h.storable ?_, .new, hFits _⟩
  rintro id w rfl
  exact hSuits.marks _
    (hFits (.yields parent part scope (.returned id w) .new))
    _ _ _ _ _ _ rfl hStores

------------------------------------------------------------
-- Outcomes and Names
------------------------------------------------------------

namespace Eval

variable {R : Regime}

theorem keeps_settle
    {outcome : Except Complaint Value}
    (h : ∀ v, outcome = .ok v → v.Within R.ok) :
    Keeps R (Value.Carried R.ok) (settle outcome) := by
  cases outcome with
  | ok v => exact .pure (h v rfl).carried
  | error c =>
      exact (keeps_raise _).mono fun _ hError =>
        Value.carried_of_isError hError

theorem keeps_lookInside
    [Platform]
    {left subscript : Value}
    (h :
      ∀ v, left.applyIndex subscript = .ok (.ok v) →
        v.Within R.ok)
    (hStop :
      ∀ f, subscript.hashKey? = some (.error f) → R.stop f) :
    Keeps R (Value.Carried R.ok) (lookInside left subscript) := by
  unfold lookInside
  cases hLooked : left.applyIndex subscript with
  | error f =>
      exact .throw (hStop f (Value.hashKey?_of_applyIndex hLooked))
  | ok outcome =>
      exact keeps_settle fun v hValue => h v (hValue ▸ hLooked)

theorem keeps_identifier
    (hOk : Value.Allows R.ok R.inside R.code)
    {scope : ScopeId}
    (name : String)
    (hScope : R.inside scope) :
    Keeps R (Value.Carried R.ok) (identifier scope name) := by
  refine .bind (keeps_lookup name hScope) fun found hFound => ?_
  cases found with
  | some v => exact .pure (hFound v rfl).carried
  | none =>
      dsimp only
      split
      · next b hBuiltin =>
          have hWithin : (Value.builtin b).Within R.ok :=
            Value.IsFlat.within trivial (hOk.builtin b)
          exact .pure hWithin.carried
      · exact (keeps_raise _).mono fun _ hError =>
          Value.carried_of_isError hError

end Eval

------------------------------------------------------------
-- Logics of a Regime
------------------------------------------------------------

/-
  A way to say of computations in a monad that they keep to a
  regime and give what is wanted.  All that the rules need of it
  is that steps of the machine and what is put together from such
  computations keep to the regime as well.
-/
structure Regime.Logic
    (R : Regime)
    (M : Type → Type)
    [Monad M]
    [MonadLiftT Eval M] where
  keeps : {α : Type} → (α → Prop) → M α → Prop
  pure :
    ∀ {α : Type} {good : α → Prop} {a : α},
      good a → keeps good (Pure.pure a)
  bind :
    ∀ {α β : Type} {good : α → Prop} {good' : β → Prop}
      {x : M α} {f : α → M β},
      keeps good x → (∀ a, good a → keeps good' (f a)) →
        keeps good' (x >>= f)
  mono :
    ∀ {α : Type} {good wider : α → Prop} {x : M α},
      keeps good x → (∀ a, good a → wider a) → keeps wider x
  lift :
    ∀ {α : Type} {good : α → Prop} {x : Eval α},
      Eval.Keeps R good x → keeps good (liftM x : M α)

namespace Regime.Logic

variable {R : Regime}
variable {M : Type → Type} [Monad M] [MonadLiftT Eval M]
variable (L : R.Logic M)
variable {α β : Type}
variable {good : α → Prop}
variable {good' : β → Prop}

/- A step of the machine comes first. -/
theorem act
    {x : Eval α}
    {f : α → M β}
    (hx : Eval.Keeps R good x)
    (hf : ∀ a, good a → L.keeps good' (f a)) :
    L.keeps good' (liftM x >>= f) :=
  L.bind (L.lift hx) hf

/- An operand comes first, and what follows may take for granted
   that it is no error. -/
theorem operand
    {wanted : Value → Prop}
    {x : M Value}
    {next : Value → M Value}
    (hx : L.keeps wanted x)
    (hNext :
      ∀ v, wanted v → ¬ v.isError = true →
        L.keeps (Value.Carried R.ok) (next v)) :
    L.keeps (Value.Carried R.ok)
      (x >>= fun v => Eval.unlessError v (next v)) := by
  refine L.bind hx fun v hWanted => ?_
  unfold Eval.unlessError
  split
  · next hError => exact L.pure (.inl (.inl hError))
  · next hError => exact hNext v hWanted hError

------------------------------------------------------------
-- Statements
------------------------------------------------------------

variable (hOk : Value.Allows R.ok R.inside R.code)
variable {eval : Node → ScopeId → M Value}
variable {scope : ScopeId}

theorem statements
    {body : List Node}
    {last : Value}
    (hParts :
      ∀ n ∈ body,
        L.keeps (Value.Carried R.ok) (eval n scope))
    (hLast : last.Carried R.ok) :
    L.keeps (Value.Carried R.ok)
      (Eval.statements eval scope last body) := by
  induction body generalizing last with
  | nil => exact L.pure hLast
  | cons s rest ih =>
      rcases List.forall_mem_cons.mp hParts with
        ⟨hFirst, hRest⟩
      refine L.bind hFirst fun v hCarried => ?_
      split
      · exact L.pure hCarried
      · exact ih hRest hCarried

include hOk

theorem letStatement
    {value : Node}
    (name : String)
    (hValue :
      L.keeps (Value.Storable R.ok) (eval value scope)) :
    L.keeps (Value.Carried R.ok)
      (Eval.letStatement eval scope name value) :=
  L.operand hValue fun _ hStorable hError =>
    L.act (Eval.keeps_define scope name
        (hStorable.within hError))
      fun _ _ => L.pure (Value.within_null hOk).carried

theorem returnStatement
    {value : Option Node}
    (hValue :
      ∀ e ∈ value,
        L.keeps (Value.Storable R.ok) (eval e scope)) :
    L.keeps (Value.Carried R.ok)
      (Eval.returnStatement eval scope value) := by
  cases value with
  | none =>
      exact L.act Eval.keeps_fresh fun id _ =>
        L.pure (.inr ⟨id, _, rfl, Value.within_null hOk⟩)
  | some e =>
      refine L.operand (hValue e rfl) fun v hStorable hError => ?_
      exact L.act Eval.keeps_fresh fun id _ =>
        L.pure (.inr ⟨id, v, rfl, hStorable.within hError⟩)

------------------------------------------------------------
-- Expressions
------------------------------------------------------------

theorem ifElse
    {condition consequence : Node}
    {alternative : Option Node}
    (hCondition :
      L.keeps (Value.Carried R.ok)
        (eval condition scope))
    (hConsequence :
      L.keeps (Value.Carried R.ok)
        (eval consequence scope))
    (hAlternative :
      ∀ branch ∈ alternative,
        L.keeps (Value.Carried R.ok)
          (eval branch scope)) :
    L.keeps (Value.Carried R.ok)
      (Eval.ifElse eval scope condition consequence
        alternative) := by
  refine L.operand hCondition fun c _ _ => ?_
  split
  · exact hConsequence
  · cases alternative with
    | none => exact L.pure (Value.within_null hOk).carried
    | some branch => exact hAlternative branch rfl

theorem prefixExpression
    {right : Node}
    (operator : String)
    (hRight :
      L.keeps (Value.Carried R.ok) (eval right scope)) :
    L.keeps (Value.Carried R.ok)
      (Eval.prefixExpression eval scope operator right) :=
  L.operand hRight fun _ _ _ =>
    L.lift (Eval.keeps_settle fun _ h =>
      Value.within_applyPrefix hOk h)

theorem infixExpression
    {left right : Node}
    (operator : String)
    (hLeft :
      L.keeps (Value.Carried R.ok) (eval left scope))
    (hRight :
      L.keeps (Value.Carried R.ok) (eval right scope)) :
    L.keeps (Value.Carried R.ok)
      (Eval.infixExpression eval scope left operator right) :=
  L.operand hLeft fun _ _ _ =>
    L.operand hRight fun _ _ _ =>
      L.lift (Eval.keeps_settle fun _ h =>
        Value.within_applyInfix hOk h)

/- What is known of the subscript has to rule out a key that
   evaluation must not stop at. -/
theorem indexExpression
    [Platform]
    {keyed : Value → Prop}
    {left subscript : Node}
    (hLeft :
      L.keeps (Value.Carried R.ok) (eval left scope))
    (hSubscript : L.keeps keyed (eval subscript scope))
    (hStop :
      ∀ v, keyed v → ∀ f,
        v.hashKey? = some (.error f) → R.stop f) :
    L.keeps (Value.Carried R.ok)
      (Eval.indexExpression eval scope left subscript) :=
  L.operand hLeft fun _ hCarried hError =>
    L.operand hSubscript fun i hKeyed _ =>
      L.lift (Eval.keeps_lookInside
        (fun _ h => hCarried.applyIndex hOk hError h)
        (hStop i hKeyed))

omit hOk in
/- The values of expressions, none of which is an error.  What
   else is known of each of them stays known. -/
theorem expressions
    {also : Value → Prop}
    {es : List Node}
    (hStored :
      ∀ e ∈ es,
        L.keeps (fun v => v.Storable R.ok ∧ also v)
          (eval e scope)) :
    L.keeps
      (Value.GoodOrError fun vs =>
        ∀ v ∈ vs, v.Within R.ok ∧ also v)
      (Eval.expressions eval scope es) := by
  induction es with
  | nil => exact L.pure nofun
  | cons e rest ih =>
      rcases List.forall_mem_cons.mp hStored with
        ⟨hFirst, hRest⟩
      refine L.bind hFirst fun v ⟨hStorable, hAlso⟩ => ?_
      split
      · next hError => exact L.pure hError
      · next hError =>
          refine L.bind (ih hRest) fun r hGood => ?_
          cases r with
          | error stop => exact L.pure hGood
          | ok vs =>
              exact L.pure (List.forall_mem_cons.mpr
                ⟨⟨hStorable.within hError, hAlso⟩, hGood⟩)

omit hOk in
/- The values of expressions that can be stored, none of which is
   an error. -/
theorem storedExpressions
    {es : List Node}
    (hStored :
      ∀ e ∈ es,
        L.keeps (Value.Storable R.ok) (eval e scope)) :
    L.keeps
      (Value.GoodOrError fun vs => ∀ v ∈ vs, v.Within R.ok)
      (Eval.expressions eval scope es) := by
  have hBoth :=
    L.expressions fun e hMem =>
      L.mono (hStored e hMem) fun _ h => ⟨h, trivial⟩
  refine L.mono hBoth fun r hGood => ?_
  cases r with
  | error stop => exact hGood
  | ok vs => exact fun v hMem => (hGood v hMem).1

theorem arrayLiteral
    {elements : List Node}
    (hStored :
      ∀ e ∈ elements,
        L.keeps (Value.Storable R.ok) (eval e scope)) :
    L.keeps (Value.Carried R.ok)
      (Eval.arrayLiteral eval scope elements) := by
  refine L.bind (L.storedExpressions hStored) fun r hGood => ?_
  cases r with
  | error stop => exact L.pure (Value.carried_of_isError hGood)
  | ok vs =>
      exact L.lift ((Builtin.keeps_newArray hOk hGood).mono
        fun _ hArray => hArray.carried)

omit hOk in
/- A table with the property is extended to another one. -/
theorem hashPairs
    [Platform]
    {keyed : Value → Prop}
    {table : Table HashKey (HashPair Value)}
    {pairs : List (Node × Node)}
    (hKeys :
      ∀ pair ∈ pairs,
        L.keeps (fun v => v.Carried R.ok ∧ keyed v)
          (eval pair.1 scope))
    (hStored :
      ∀ pair ∈ pairs,
        L.keeps (Value.Storable R.ok)
          (eval pair.2 scope))
    (hStop :
      ∀ v, keyed v → ∀ f,
        v.hashKey? = some (.error f) → R.stop f)
    (hTable :
      ∀ entry ∈ table,
        entry.2.key.Within R.ok ∧
          entry.2.value.Within R.ok) :
    L.keeps
      (Value.GoodOrError fun t =>
        ∀ entry ∈ t,
          entry.2.key.Within R.ok ∧
            entry.2.value.Within R.ok)
      (Eval.hashPairs eval scope table pairs) := by
  induction pairs generalizing table with
  | nil => exact L.pure hTable
  | cons pair rest ih =>
      rcases List.forall_mem_cons.mp hKeys with
        ⟨hKeyPart, hRestKeys⟩
      rcases List.forall_mem_cons.mp hStored with
        ⟨hFirst, hRest⟩
      refine L.bind hKeyPart fun key ⟨hCarried, hKeyed⟩ => ?_
      split
      · next hError => exact L.pure hError
      · next hKeyError =>
          split
          · exact L.act (Eval.keeps_raise _) fun v hError =>
              L.pure hError
          · next made hKey =>
              refine L.bind hFirst fun value hStorable => ?_
              split
              · next hError => exact L.pure hError
              · next hError =>
                  cases made with
                  | error f =>
                      exact L.lift
                        (.throw (hStop key hKeyed f hKey))
                  | ok k =>
                      refine ih hRestKeys hRest
                        fun entry hEntry => ?_
                      rcases Table.mem_insert hEntry with
                        rfl | hOld
                      · exact
                          ⟨hCarried.of_hashKey hKeyError hKey,
                            hStorable.within hError⟩
                      · exact hTable entry hOld

theorem hashLiteral
    [Platform]
    {keyed : Value → Prop}
    {pairs : List (Node × Node)}
    (hKeys :
      ∀ pair ∈ pairs,
        L.keeps (fun v => v.Carried R.ok ∧ keyed v)
          (eval pair.1 scope))
    (hStored :
      ∀ pair ∈ pairs,
        L.keeps (Value.Storable R.ok)
          (eval pair.2 scope))
    (hStop :
      ∀ v, keyed v → ∀ f,
        v.hashKey? = some (.error f) → R.stop f) :
    L.keeps (Value.Carried R.ok)
      (Eval.hashLiteral eval scope pairs) := by
  refine L.bind (L.hashPairs hKeys hStored hStop nofun)
    fun r hGood => ?_
  cases r with
  | error stop => exact L.pure (Value.carried_of_isError hGood)
  | ok table =>
      refine L.act Eval.keeps_fresh fun id _ => L.pure ?_
      have hWithin : (Value.hash id table).Within R.ok :=
        Value.within_hash.mpr ⟨hOk.hash id table, hGood⟩
      exact hWithin.carried

------------------------------------------------------------
-- Calls
------------------------------------------------------------

variable {depth : Nat}

theorem apply
    [Platform]
    {fn : Value}
    {args : List Value}
    (hBody :
      ∀ n s, R.inside s → R.code n →
        L.keeps (Value.Carried R.ok) (eval n s))
    (hFn : fn.Carried R.ok)
    (hArgs : ∀ v ∈ args, v.Within R.ok)
    (hStop :
      fn = .builtin .puts →
        ∀ v ∈ args, ∀ f,
          Builtin.lineFor depth v = .error f → R.stop f) :
    L.keeps (Value.Carried R.ok)
      (Eval.apply eval depth fn args) := by
  unfold Eval.apply
  split
  · next id params body outer =>
      rcases hFn.function hOk with ⟨hOuter, hCode⟩
      refine L.act (Eval.keeps_callScope hOuter hArgs)
        fun s hInside => ?_
      exact L.bind (hBody body s hInside hCode)
        fun v hCarried => L.pure hCarried.unwrapReturned.carried
  · next b =>
      have hCall :
          Eval.Keeps R (Value.Storable R.ok)
            (b.call depth args) :=
        Builtin.keeps_call hOk hArgs fun hPuts =>
          hStop (congrArg Value.builtin hPuts)
      exact L.lift (hCall.mono fun _ hStorable =>
        hStorable.carried)
  · exact L.lift ((Eval.keeps_raise _).mono fun _ hError =>
      Value.carried_of_isError hError)

/- What is known of the callee and of the arguments has to rule
   out that `puts` gets something that it must not stop at. -/
theorem callExpression
    [Platform]
    {called passed : Value → Prop}
    {callee : Node}
    {args : List Node}
    (hBody :
      ∀ n s, R.inside s → R.code n →
        L.keeps (Value.Carried R.ok) (eval n s))
    (hCallee :
      L.keeps (fun v => v.Carried R.ok ∧ called v)
        (eval callee scope))
    (hStored :
      ∀ e ∈ args,
        L.keeps (fun v => v.Storable R.ok ∧ passed v)
          (eval e scope))
    (hStop :
      called (.builtin .puts) →
        ∀ v, v.Within R.ok → passed v → ∀ f,
          Builtin.lineFor depth v = .error f → R.stop f) :
    L.keeps (Value.Carried R.ok)
      (Eval.callExpression eval depth scope callee args) := by
  refine L.operand hCallee fun fn ⟨hFn, hCalled⟩ _ => ?_
  refine L.bind (L.expressions hStored) fun r hGood => ?_
  cases r with
  | error stop => exact L.pure (Value.carried_of_isError hGood)
  | ok vs =>
      refine L.apply hOk hBody hFn (fun v hMem => (hGood v hMem).1)
        ?_
      rintro rfl v hMem
      exact hStop hCalled v (hGood v hMem).1 (hGood v hMem).2

------------------------------------------------------------
-- Nodes
------------------------------------------------------------

omit hOk in
/- A node keeps to a regime if its parts do. -/
theorem step
    [Platform]
    (hSuits : R.Suits fits)
    {node : Node}
    (hNode : R.code node)
    (hScope : R.inside scope)
    (hParts :
      ∀ n s, R.inside s → R.code n →
        L.keeps (Value.Given R fits node n s)
          (eval n s)) :
    L.keeps (Value.Carried R.ok)
      (Eval.step eval depth node scope) := by
  have hOk := hSuits.allows
  have hBody :
      ∀ n s, R.inside s → R.code n →
        L.keeps (Value.Carried R.ok) (eval n s) :=
    fun n s hInside hCode =>
      L.mono (hParts n s hInside hCode) fun _ h => h.carried
  have hGiven :
      ∀ n ∈ node.parts,
        L.keeps (Value.Given R fits node n scope)
          (eval n scope) :=
    fun n hPart =>
      hParts n scope hScope (hSuits.parts node hNode n hPart)
  have hCarried :
      ∀ n ∈ node.parts,
        L.keeps (Value.Carried R.ok) (eval n scope) :=
    fun n hPart => L.mono (hGiven n hPart) fun _ h => h.carried
  have hStored :
      ∀ n ∈ node.parts, node.Stores n →
        L.keeps (Value.Storable R.ok) (eval n scope) :=
    fun n hPart hStores =>
      L.mono (hGiven n hPart) fun _ h => h.storable hStores
  have hFlat :
      ∀ v : Value, v.IsFlat → R.ok v →
        L.keeps (Value.Carried R.ok) (Pure.pure v) :=
    fun v hFlat h => L.pure (hFlat.within h).carried
  have hNull := (Value.within_null hOk).carried
  cases node with
  | identifier id =>
      exact L.lift (Eval.keeps_identifier hOk id.name hScope)
  | integer _ n => exact hFlat _ trivial (hOk.int n)
  | boolean _ b => exact hFlat _ trivial (hOk.bool b)
  | string _ s => exact hFlat _ trivial (hOk.str s)
  | prefixOp _ operator right =>
      exact L.prefixExpression hOk operator
        (hCarried right (by simp [Node.parts]))
  | infixOp _ left operator right =>
      exact L.infixExpression hOk operator
        (hCarried left (by simp [Node.parts]))
        (hCarried right (by simp [Node.parts]))
  | ifElse _ condition consequence alternative =>
      refine L.ifElse hOk (hCarried condition ?_)
        (hCarried consequence ?_)
        fun branch hBranch => hCarried branch ?_
      · simp [Node.parts]
      · simp [Node.parts]
      · simpa [Node.parts] using .inr (.inr hBranch)
  | function _ params body =>
      have hCode : R.code body :=
        hSuits.parts _ hNode body (by simp [Node.parts])
      exact L.act Eval.keeps_fresh fun id _ =>
        hFlat _ trivial ((hOk.function ..).mpr ⟨hScope, hCode⟩)
  | call t callee args =>
      have hCallee := hGiven callee (by simp [Node.parts])
      have hArgs :
          ∀ e ∈ args,
            L.keeps
              (fun v => v.Storable R.ok ∧
                ∃ arg ∈ args, ∃ m,
                  fits (.yields (.call t callee args) arg scope
                    v m))
              (eval e scope) := by
        intro e hArg
        have hPart : e ∈ (Node.call t callee args).parts :=
          List.mem_cons_of_mem _ hArg
        exact L.mono (hGiven e hPart) fun _ h =>
          ⟨h.storable hArg, e, hArg, h.seen⟩
      refine L.callExpression hOk hBody
        (L.mono hCallee fun _ h => ⟨h.carried, h.seen⟩) hArgs ?_
      rintro ⟨m, hPuts⟩ v hWithin ⟨arg, hArg, m', hFits⟩ f hFail
      exact hSuits.prints t callee args scope m arg v m' depth
        f hPuts hArg hFits hWithin hFail
  | array _ elements =>
      exact L.arrayLiteral hOk fun e hMem => hStored e hMem hMem
  | index t left subscript =>
      have hSubscript := hGiven subscript (by simp [Node.parts])
      refine L.indexExpression hOk
        (hCarried left (by simp [Node.parts]))
        (L.mono hSubscript fun _ h => h.seen) ?_
      rintro v ⟨m, hFits⟩ f hFail
      exact hSuits.keys _ _ scope v m f hFits rfl hFail
  | hash t pairs =>
      have hKeys :
          ∀ pair ∈ pairs,
            L.keeps
              (fun v => v.Carried R.ok ∧
                ∃ pair ∈ pairs, ∃ m,
                  fits (.yields (.hash t pairs) pair.1 scope v m))
              (eval pair.1 scope) := by
        intro pair hPair
        have hPart : pair.1 ∈ (Node.hash t pairs).parts :=
          List.mem_flatMap.mpr ⟨pair, hPair, by simp⟩
        exact L.mono (hGiven pair.1 hPart) fun _ h =>
          ⟨h.carried, pair, hPair, h.seen⟩
      refine L.hashLiteral hOk hKeys (fun pair hPair => ?_) ?_
      · exact hStored pair.2
          (List.mem_flatMap.mpr ⟨pair, hPair, by simp⟩)
          ⟨pair.1, hPair⟩
      · rintro v ⟨pair, hPair, m, hFits⟩ f hFail
        exact hSuits.keys _ _ scope v m f hFits
          ⟨pair.2, hPair⟩ hFail
  | letStmt _ name value =>
      exact L.letStatement hOk name.name
        (hStored value (by simp [Node.parts]) rfl)
  | returnStmt _ value =>
      exact L.returnStatement hOk fun e hMem =>
        hStored e (Option.mem_toList.mpr hMem) hMem
  | exprStmt _ expression =>
      exact hCarried expression (by simp [Node.parts])
  | block _ body => exact L.statements hCarried hNull
  | program body =>
      exact L.bind (L.statements hCarried hNull)
        fun v hCarried => L.pure hCarried.unwrapReturned.carried
  | foreign => exact L.lift (.throw (hSuits.foreign hNode))

omit hOk in
/- So does one whose values are applied in some other way, if that
   keeps to the regime whatever it is given. -/
theorem stepBy
    [Platform]
    (hSuits : R.Suits fits)
    {node : Node}
    (hNode : R.code node)
    (hScope : R.inside scope)
    (hParts :
      ∀ n s, R.inside s → R.code n →
        L.keeps (Value.Given R fits node n s) (eval n s))
    {apply : Value → List Value → M Value}
    (hApply :
      ∀ {fn args}, fn.Carried R.ok →
        (∀ v ∈ args, v.Within R.ok) →
          L.keeps (Value.Carried R.ok) (apply fn args)) :
    L.keeps (Value.Carried R.ok)
      (Eval.stepBy eval apply depth node scope) := by
  unfold Eval.stepBy
  split
  · next t callee args =>
      have hGiven :
          ∀ n ∈ (Node.call t callee args).parts,
            L.keeps (Value.Given R fits _ n scope)
              (eval n scope) :=
        fun n hPart =>
          hParts n scope hScope (hSuits.parts _ hNode n hPart)
      have hStored :
          ∀ e ∈ args,
            L.keeps (Value.Storable R.ok) (eval e scope) :=
        fun e hArg =>
          L.mono (hGiven e (List.mem_cons_of_mem _ hArg))
            fun _ h => h.storable hArg
      refine L.operand
        (L.mono (hGiven callee (List.mem_cons_self ..))
          fun _ h => h.carried)
        fun fn hFn _ => ?_
      refine L.bind (L.storedExpressions hStored)
        fun r hGood => ?_
      cases r with
      | error stop =>
          exact L.pure (Value.carried_of_isError hGood)
      | ok vs => exact hApply hFn hGood
  · exact L.step hSuits hNode hScope hParts

end Regime.Logic

------------------------------------------------------------
-- Logged Computations
------------------------------------------------------------

namespace Logged

/-
  A computation keeps to a regime, also when it fails, and gives
  what is wanted, if all of its events fit.
-/
def Keeps
    {α : Type}
    (R : Regime)
    (fits : Event → Prop)
    (good : α → Prop)
    (x : Logged α) : Prop :=
  ∀ m, R.Holds m → (∀ e ∈ (x m).1, fits e) →
    Lands R good (x m).2

namespace Keeps

variable {α β : Type}
variable {R : Regime}
variable {fits : Event → Prop}
variable {good : α → Prop}
variable {good' : β → Prop}

theorem pure
    {a : α}
    (h : good a) :
    Keeps R fits good (Pure.pure a) :=
  fun _ hHolds _ => ⟨hHolds, h⟩

theorem lift
    {x : Eval α}
    (h : Eval.Keeps R good x) :
    Keeps R fits good (liftM x) :=
  fun m hHolds _ => h m hHolds

theorem note
    (event : Machine → Event) :
    Keeps R fits (fun _ => ∃ m, fits (event m)) (note event) :=
  fun m hHolds hFits =>
    ⟨hHolds, m, hFits _ (List.mem_singleton.mpr rfl)⟩

theorem bind
    {x : Logged α}
    {f : α → Logged β}
    (hx : Keeps R fits good x)
    (hf : ∀ a, good a → Keeps R fits good' (f a)) :
    Keeps R fits good' (x >>= f) := by
  intro m hHolds hFits
  change ∀ e ∈ (andThen (x m) f).1, _ at hFits
  change Lands _ good' (andThen (x m) f).2
  have hFirst := hx m hHolds
  unfold andThen at hFits ⊢
  cases hResult : (x m).2 with
  | error e m' =>
      rw [hResult] at hFirst hFits
      exact hFirst hFits
  | ok a m' =>
      simp only [hResult, List.mem_append] at hFirst hFits ⊢
      rcases hFirst fun e hMem => hFits e (.inl hMem) with
        ⟨hHolds', hGood⟩
      exact hf a hGood m' hHolds' fun e hMem =>
        hFits e (.inr hMem)

theorem mono
    {wider : α → Prop}
    {x : Logged α}
    (hx : Keeps R fits good x)
    (hWider : ∀ a, good a → wider a) :
    Keeps R fits wider x :=
  fun m hHolds hFits => (hx m hHolds hFits).mono hWider

------------------------------------------------------------
-- Parts
------------------------------------------------------------

/- A part of a node may give a return mark, unless the node
   stores it. -/
theorem part
    {eval : Node → ScopeId → Logged Value}
    {node : Node}
    {scope : ScopeId}
    (hMarks : ∀ e, fits e → e.Fits R.ok)
    (parent : Node)
    (h :
      Keeps R fits (Value.Carried R.ok) (eval node scope)) :
    Keeps R fits (Value.Given R fits parent node scope)
      (part parent eval node scope) := by
  refine bind (note _) fun _ _ => bind h fun v hCarried => ?_
  refine bind (note _) fun _ ⟨m, hFits⟩ => ?_
  have hStorable : parent.Stores node → v.Storable R.ok := by
    refine fun hStores => hCarried.storable ?_
    rintro id w rfl
    exact hMarks _ hFits parent node scope id w m rfl hStores
  exact pure ⟨hCarried, hStorable, m, hFits⟩

end Keeps

/- Keeping to a regime where all events fit is a logic of it. -/
def logic
    (R : Regime)
    (fits : Event → Prop) :
    R.Logic Logged where
  keeps := Keeps R fits
  pure := .pure
  bind := .bind
  mono := .mono
  lift := .lift

------------------------------------------------------------
-- Evaluation
------------------------------------------------------------

variable [Platform]

section

variable {R : Regime}
variable {fits : Event → Prop}

/- Evaluation of a node of a regime in a scope of it keeps to the
   regime. -/
theorem keeps_evaluateLogged
    (hSuits : R.Suits fits)
    (depth : Nat)
    {node : Node}
    {scope : ScopeId}
    (hNode : R.code node)
    (hScope : R.inside scope) :
    Keeps R fits (Value.Carried R.ok)
      (Eval.evaluateLogged depth node scope) := by
  induction depth generalizing node scope with
  | zero => exact .lift (.throw hSuits.tooDeep)
  | succ depth ih =>
      exact (logic R fits).step hSuits hNode hScope
        fun n s hInside hCode =>
          .part hSuits.marks node (ih hCode hInside)

/- A program gives something that can be stored. -/
theorem keeps_evaluateLogged_program
    (hSuits : R.Suits fits)
    (depth : Nat)
    {body : List Node}
    {scope : ScopeId}
    (hNode : R.code (.program body))
    (hScope : R.inside scope) :
    Keeps R fits (Value.Storable R.ok)
      (Eval.evaluateLogged depth (.program body) scope) := by
  cases depth with
  | zero => exact .lift (.throw hSuits.tooDeep)
  | succ depth =>
      have hParts :
          ∀ n ∈ body,
            Keeps R fits (Value.Carried R.ok)
              (part (.program body)
                (Eval.evaluateLogged depth) n scope) :=
        fun n hMem =>
          (Keeps.part hSuits.marks _
            (keeps_evaluateLogged hSuits depth
              (hSuits.parts _ hNode n hMem) hScope)).mono
            fun v h => h.carried
      exact Keeps.bind
        ((logic R fits).statements hParts
          (Value.within_null hSuits.allows).carried)
        fun v hCarried => .pure hCarried.unwrapReturned

end

------------------------------------------------------------
-- Properties of Everything Bound
------------------------------------------------------------

variable {ok : Value → Prop}
variable {inside : ScopeId → Prop}

/- The regime that only asks for a property of values. -/
def regimeOf
    (ok : Value → Prop)
    (inside : ScopeId → Prop) :
    Regime where
  ok := ok
  inside := inside
  code _ := True
  stop _ := True

theorem regimeOf_suits
    (hOk : Value.Allows ok inside fun _ => True) :
    (regimeOf ok inside).Suits (Event.Fits ok) where
  allows := hOk
  parts _ _ _ _ := trivial
  marks _ h := h
  tooDeep := trivial
  foreign _ := trivial
  keys := by
    intros
    trivial
  prints := by
    intros
    trivial

/- A program keeps a property of everything bound in a set of
   scopes. -/
theorem keeps_program
    (hOk : Value.Allows ok inside fun _ => True)
    (depth : Nat)
    (body : List Node)
    {scope : ScopeId}
    (hScope : inside scope) :
    Keeps (regimeOf ok inside) (Event.Fits ok)
      (Value.Storable ok)
      (Eval.evaluateLogged depth (.program body) scope) :=
  keeps_evaluateLogged_program (regimeOf_suits hOk) depth
    trivial hScope

end Logged

end Monkey
