import Mathlib.Order.Basic
import Monkey.Proofs.Eval.Form
import Monkey.Proofs.Eval.MoreLevels

/-
  Evaluations side by side.

  A `Likeness` tells which nodes, values, scopes, and machines of
  two evaluations stand for each other.  It may depend on a
  stage, which grows as the evaluations go on: what stands for
  each other at a stage does so later as well.

  A likeness is respected if nodes and values that stand for each
  other have the same form, with parts that do so too, and the
  steps of the machine keep to it.  Evaluation keeps to it then,
  in any monads that make it a `Logic`, and this is the one
  induction for it.  A likeness is closed if names and written
  forms stay the same besides, so that printing keeps to it, too.

  Main declarations:
    * `Likeness.Relates`
    * `Likeness.Respected`
    * `Likeness.Logic.stepBy`
    * `Likeness.Closed`
    * `Likeness.Closed.evaluateWithin`
    * `Likeness.Closed.apply`
-/

namespace Monkey

------------------------------------------------------------
-- Rules in Any Monad
------------------------------------------------------------

/- In a monad, an object is made when its identity is. -/
class Eval.MakesAtOnce
    (M : Type → Type)
    [Monad M]
    [MonadLiftT Eval M] : Prop where
  liftM_make :
    ∀ form : Form,
      (liftM (Eval.make form) : M Value) =
        liftM Eval.fresh >>= fun id => pure (form.object id)

instance
    {M : Type → Type}
    [Monad M]
    [MonadLiftT Eval M]
    [LawfulMonadLiftT Eval M] :
    Eval.MakesAtOnce M where
  liftM_make form := by
    unfold Eval.make
    rw [liftM_bind]
    simp only [liftM_pure]

------------------------------------------------------------
-- Likenesses
------------------------------------------------------------

/-
  What stands for what in two evaluations, at each stage.  The
  scopes in which nodes are evaluated are told apart from the
  outer scopes that functions refer to.
-/
structure Likeness (W : Type) where
  names : Identifier → Identifier → Prop
  nodes : Node → Node → Prop
  values : W → Value → Value → Prop
  scopes : W → ScopeId → ScopeId → Prop
  outers : W → ScopeId → ScopeId → Prop
  machines : W → Machine → Machine → Prop
  messages : Identity → String → String → Prop

/- Two results about which nothing is known. -/
def Likeness.Unknown
    {W α β : Type}
    (_ : W)
    (_ : α)
    (_ : β) : Prop :=
  True

namespace Likeness

variable {W : Type}
variable [Preorder W]
variable {α β γ δ : Type}

section

variable (L : Likeness W)

/- Values of the same form at a stage. -/
def Matches
    (w : W) :
    Value → Value → Prop :=
  Value.Matches (L.values w) L.names L.nodes (L.outers w)
    L.messages

/- Machines that stand for each other, at the given stage or
   later, with results that do so, or the same failure. -/
def Lands
    (w : W)
    (good : W → α → β → Prop) :
    EStateM.Result Failure Machine α →
      EStateM.Result Failure Machine β → Prop
  | .ok a m, .ok b m' =>
      ∃ w', w ≤ w' ∧ L.machines w' m m' ∧ good w' a b
  | .error f m, .error f' m' =>
      f = f' ∧ ∃ w', w ≤ w' ∧ L.machines w' m m'
  | _, _ => False

/- From a stage on, two computations take machines that stand
   for each other to such machines. -/
def Relates
    (w : W)
    (good : W → α → β → Prop)
    (x : Eval α)
    (y : Eval β) : Prop :=
  ∀ w₁, w ≤ w₁ → ∀ m m', L.machines w₁ m m' →
    L.Lands w₁ good (x m) (y m')

/-
  What evaluation asks of a likeness, but for printing: it lasts,
  goes down to parts, and is kept to by the steps of the machine.
-/
structure Respected : Prop where
  values_mono :
    ∀ {w w₁ v v'}, w ≤ w₁ → L.values w v v' →
      L.values w₁ v v'
  scopes_mono :
    ∀ {w w₁ s s'}, w ≤ w₁ → L.scopes w s s' →
      L.scopes w₁ s s'
  captures :
    ∀ {w s s'}, L.scopes w s s' → L.outers w s s'
  nodes_match :
    ∀ {n n'}, L.nodes n n' → Node.Matches L.names L.nodes n n'
  values_match :
    ∀ {w v v'}, L.values w v v' → L.Matches w v v'
  same_eq :
    ∀ {w v v' u u'}, L.values w v v' → L.values w u u' →
      v.same u = v'.same u'
  plain :
    ∀ {w} {v : Value}, v.identity? = none → L.values w v v
  nameless :
    ∀ id (c : Complaint), c.Nameless →
      L.messages id c.message c.message
  make :
    ∀ {w} (form form' : Form),
      (∀ id id',
        L.Matches w (form.object id) (form'.object id')) →
        L.Relates w L.values (Eval.make form)
          (Eval.make form')
  newScope :
    ∀ {w s s'}, L.outers w s s' →
      L.Relates w L.scopes (Eval.newScope (some s))
        (Eval.newScope (some s'))
  define :
    ∀ {w s s' v v' id id'}, L.names id id' →
      L.scopes w s s' → L.values w v v' →
        L.Relates w Unknown (Eval.define s id.name v)
          (Eval.define s' id'.name v')
  identifier :
    ∀ {w s s' id id'}, L.names id id' → L.scopes w s s' →
      L.Relates w L.values (Eval.identifier s id.name)
        (Eval.identifier s' id'.name)

/- Printing values that stand for each other keeps to a
   likeness. -/
def Prints [Platform] : Prop :=
  ∀ w depth vs vs', List.Forall₂ (L.values w) vs vs' →
    L.Relates w Unknown (Builtin.printValues depth vs)
      (Builtin.printValues depth vs')

/-
  A likeness that is respected, and of which names and written
  forms do not tell anything.
-/
structure Closed : Prop where
  values_mono :
    ∀ {w w₁ v v'}, w ≤ w₁ → L.values w v v' →
      L.values w₁ v v'
  scopes_mono :
    ∀ {w w₁ s s'}, w ≤ w₁ → L.scopes w s s' →
      L.scopes w₁ s s'
  captures :
    ∀ {w s s'}, L.scopes w s s' → L.outers w s s'
  names_eq :
    ∀ {id id'}, L.names id id' → id.name = id'.name
  nodes_match :
    ∀ {n n'}, L.nodes n n' → Node.Matches L.names L.nodes n n'
  values_match :
    ∀ {w v v'}, L.values w v v' → L.Matches w v v'
  same_eq :
    ∀ {w v v' u u'}, L.values w v v' → L.values w u u' →
      v.same u = v'.same u'
  inspect_eq :
    ∀ {w v v'}, L.values w v v' →
      ∀ depth, v.inspect depth = v'.inspect depth
  plain :
    ∀ {w} {v : Value}, v.identity? = none → L.values w v v
  messages_refl : ∀ id message, L.messages id message message
  make :
    ∀ {w} (form form' : Form),
      (∀ id id',
        L.Matches w (form.object id) (form'.object id')) →
        L.Relates w L.values (Eval.make form)
          (Eval.make form')
  newScope :
    ∀ {w s s'}, L.outers w s s' →
      L.Relates w L.scopes (Eval.newScope (some s))
        (Eval.newScope (some s'))
  define :
    ∀ {w s s' v v'} (name : String),
      L.scopes w s s' → L.values w v v' →
        L.Relates w Unknown (Eval.define s name v)
          (Eval.define s' name v')
  lookup :
    ∀ {w s s'} (name : String), L.scopes w s s' →
      L.Relates w (fun w => Option.Rel (L.values w))
        (Eval.lookup s name) (Eval.lookup s' name)
  printLine :
    ∀ {w} (text : String),
      L.Relates w Unknown (Eval.printLine text)
        (Eval.printLine text)

/-
  A way to relate computations in two monads.  All that the rules
  need of it is that steps of the machine that keep to the
  likeness are related, and what is put together from related
  computations.
-/
structure Logic
    (M N : Type → Type)
    [Monad M] [MonadLiftT Eval M]
    [Monad N] [MonadLiftT Eval N] where
  rel :
    {α β : Type} → W → (W → α → β → Prop) → M α → N β → Prop
  pure :
    ∀ {α β : Type} {w : W} {good : W → α → β → Prop}
      {a : α} {b : β},
      (∀ w₁, w ≤ w₁ → good w₁ a b) →
        rel w good (Pure.pure a) (Pure.pure b)
  bind :
    ∀ {α β γ δ : Type} {w : W} {good : W → α → β → Prop}
      {good' : W → γ → δ → Prop} {x : M α} {y : N β}
      {f : α → M γ} {g : β → N δ},
      rel w good x y →
        (∀ w₁, w ≤ w₁ → ∀ a b, good w₁ a b →
          rel w₁ good' (f a) (g b)) →
          rel w good' (x >>= f) (y >>= g)
  lift :
    ∀ {α β : Type} {w : W} {good : W → α → β → Prop}
      {x : Eval α} {y : Eval β},
      L.Relates w good x y →
        rel w good (liftM x : M α) (liftM y : N β)

end

------------------------------------------------------------
-- Combining Computations
------------------------------------------------------------

variable {L : Likeness W}
variable {w : W}

theorem Lands.mono
    {w₁ : W}
    {good : W → α → β → Prop}
    {r : EStateM.Result Failure Machine α}
    {r' : EStateM.Result Failure Machine β}
    (h : L.Lands w₁ good r r')
    (hLater : w ≤ w₁) :
    L.Lands w good r r' := by
  cases r with
  | ok a m =>
      cases r' with
      | ok b m' =>
          rcases h with ⟨w₂, hStage, hRest⟩
          exact ⟨w₂, hLater.trans hStage, hRest⟩
      | error f' m' => exact h.elim
  | error f m =>
      cases r' with
      | ok b m' => exact h.elim
      | error f' m' =>
          rcases h with ⟨hSame, w₂, hStage, hMachines⟩
          exact ⟨hSame, w₂, hLater.trans hStage, hMachines⟩

section

variable {good : W → α → β → Prop}
variable {good' : W → γ → δ → Prop}
variable {x : Eval α}
variable {y : Eval β}

/- After results that stand for each other, what comes next does
   so as well. -/
theorem Lands.bind
    {f : α → Eval γ}
    {g : β → Eval δ}
    {m m' : Machine}
    (h : L.Lands w good (x m) (y m'))
    (hNext :
      ∀ w₁, w ≤ w₁ → ∀ a b m₁ m₁', x m = .ok a m₁ →
        L.machines w₁ m₁ m₁' → good w₁ a b →
          L.Lands w₁ good' (f a m₁) (g b m₁')) :
    L.Lands w good' ((x >>= f) m) ((y >>= g) m') := by
  change L.Lands w good' (EStateM.bind x f m)
    (EStateM.bind y g m')
  unfold EStateM.bind
  cases hx : x m with
  | ok a m₁ =>
      cases hy : y m' with
      | ok b m₁' =>
          rw [hx, hy] at h
          rcases h with ⟨w₁, hLater, hMachines, hGood⟩
          exact (hNext w₁ hLater a b m₁ m₁' hx hMachines
            hGood).mono hLater
      | error f' m₁' =>
          rw [hx, hy] at h
          exact h.elim
  | error f m₁ =>
      cases hy : y m' with
      | ok b m₁' =>
          rw [hx, hy] at h
          exact h.elim
      | error f' m₁' =>
          rw [hx, hy] at h
          exact h

namespace Relates

theorem pure
    {a : α}
    {b : β}
    (h : ∀ w₁, w ≤ w₁ → good w₁ a b) :
    L.Relates w good (Pure.pure a) (Pure.pure b) :=
  fun w₁ hStage _ _ hMachines =>
    ⟨w₁, le_refl w₁, hMachines, h w₁ hStage⟩

theorem throw
    (f : Failure) :
    L.Relates w good (MonadExcept.throw f)
      (MonadExcept.throw f) :=
  fun w₁ _ _ _ hMachines => ⟨rfl, w₁, le_refl w₁, hMachines⟩

theorem bind
    {f : α → Eval γ}
    {g : β → Eval δ}
    (h : L.Relates w good x y)
    (hNext :
      ∀ w₁, w ≤ w₁ → ∀ a b, good w₁ a b →
        L.Relates w₁ good' (f a) (g b)) :
    L.Relates w good' (x >>= f) (y >>= g) :=
  fun w₁ hStage m m' hMachines =>
    (h w₁ hStage m m' hMachines).bind
      fun w₂ hLater a b m₁ m₁' _ hMachines hGood =>
        hNext w₂ (hStage.trans hLater) a b hGood w₂
          (le_refl w₂) m₁ m₁' hMachines

/- What holds from a stage on holds from a later one on. -/
theorem later
    {w₁ : W}
    (h : L.Relates w good x y)
    (hStage : w ≤ w₁) :
    L.Relates w₁ good x y :=
  fun w₂ hLater => h w₂ (hStage.trans hLater)

/- The same result of a computation that uses no state. -/
theorem ofExcept
    (result : Except Failure α) :
    L.Relates w (fun _ => Eq) (Eval.ofExcept result)
      (Eval.ofExcept result) := by
  cases result with
  | ok a => exact pure fun _ _ => rfl
  | error f => exact throw f

end Relates

end

namespace Respected

variable (h : L.Respected)

include h

------------------------------------------------------------
-- New Values
------------------------------------------------------------

/- The same plain value. -/
theorem purePlain
    {v : Value}
    (hPlain : v.identity? = none) :
    L.Relates w L.values (pure v) (pure v) :=
  .pure fun _ _ => h.plain hPlain

/- Values that stand for each other. -/
theorem pureValue
    {v v' : Value}
    (hValue : L.values w v v') :
    L.Relates w L.values (pure v) (pure v') :=
  .pure fun _ hStage => h.values_mono hStage hValue

/- Lists of values that stand for each other do so later. -/
theorem forall₂_mono
    {w₁ : W}
    {vs vs' : List Value}
    (hStage : w ≤ w₁)
    (hValues : List.Forall₂ (L.values w) vs vs') :
    List.Forall₂ (L.values w₁) vs vs' :=
  hValues.imp fun _ _ => h.values_mono hStage

/- Entries that stand for each other do so later. -/
theorem likeEntries_mono
    {w₁ : W}
    {es es' : List (HashKey × HashPair Value)}
    (hStage : w ≤ w₁)
    (hEntries :
      List.Forall₂ (Value.LikeEntries (L.values w)) es es') :
    List.Forall₂ (Value.LikeEntries (L.values w₁)) es es' :=
  hEntries.imp fun _ _ ⟨hSame, hKey, hValue⟩ =>
    ⟨hSame, h.values_mono hStage hKey,
      h.values_mono hStage hValue⟩

theorem raise
    {c : Complaint}
    (hNameless : c.Nameless) :
    L.Relates w L.values (Eval.raise c.message)
      (Eval.raise c.message) :=
  h.make (.error c.message) (.error c.message)
    fun id id' => .error id id' (h.nameless id c hNameless)

theorem newArray
    {es es' : List Value}
    (hElements : List.Forall₂ (L.values w) es es') :
    L.Relates w L.values (Builtin.newArray es)
      (Builtin.newArray es') :=
  h.make (.array es) (.array es')
    fun id id' => .array id id' hElements

/- An outcome that is plain, or a complaint without a name. -/
theorem settle_plain
    {outcome : Except Complaint Value}
    (hPlain :
      ∀ v, outcome = .ok v → v.identity? = none)
    (hNameless : ∀ c, outcome = .error c → c.Nameless) :
    L.Relates w L.values (Eval.settle outcome)
      (Eval.settle outcome) := by
  cases outcome with
  | ok v => exact h.purePlain (hPlain v rfl)
  | error c => exact h.raise (hNameless c rfl)

theorem settle
    {outcome outcome' : Except Complaint Value}
    (hOutcome :
      LikeResults Eq (L.values w) outcome outcome')
    (hNameless : ∀ c, outcome = .error c → c.Nameless) :
    L.Relates w L.values (Eval.settle outcome)
      (Eval.settle outcome') := by
  cases hOutcome with
  | ok hValue => exact h.pureValue hValue
  | error hSame =>
      cases hSame
      exact h.raise (hNameless _ rfl)

/- Indexing gives values that stand for each other, the same
   complaint, or the same failure. -/
theorem lookInside
    [Platform]
    {left left' subscript subscript' : Value}
    (hLeft : L.values w left left')
    (hSubscript : L.values w subscript subscript') :
    L.Relates w L.values (Eval.lookInside left subscript)
      (Eval.lookInside left' subscript') := by
  have hOutcome :=
    (h.values_match hLeft).applyIndex
      (h.values_match hSubscript) (h.plain rfl)
  unfold Eval.lookInside
  rcases hOutcome.ok_or_error with
    ⟨r, r', hRun, hRun', hResult⟩ | ⟨f, hRun, hRun'⟩
  · rw [hRun, hRun']
    refine h.settle hResult fun c hError => ?_
    rw [hError] at hRun
    exact Value.nameless_of_applyIndex hRun
  · rw [hRun, hRun']
    exact .throw f

theorem unwrapReturned
    {v v' : Value}
    (hValue : L.values w v v') :
    L.values w v.unwrapReturned v'.unwrapReturned := by
  cases h.values_match hValue with
  | returned _ _ hInner => exact hInner
  | plain hPlain =>
      cases v with
      | returned => exact hPlain.elim
      | _ => exact hValue
  | _ => exact hValue

------------------------------------------------------------
-- Builtin Functions
------------------------------------------------------------

/- A builtin function gives values that stand for each other, or
   has the same complaint. -/
theorem run
    [Platform]
    (depth : Nat)
    (b : Builtin)
    {args args' : List Value}
    (hArgs : List.Forall₂ (L.values w) args args')
    (hPrints :
      b = .puts →
        L.Relates w Unknown (Builtin.printValues depth args)
          (Builtin.printValues depth args')) :
    L.Relates w (fun w => LikeResults Eq (L.values w))
      (b.run depth args) (b.run depth args') := by
  have hMatch :
      ∀ v v', L.values w v v' → L.Matches w v v' :=
    fun _ _ => h.values_match
  have hNull : ∀ w, L.values w .null .null :=
    fun _ => h.plain rfl
  have hSettled :
      ∀ {r r' : Except ArgumentError Value},
        LikeResults Eq (L.values w) r r' →
          L.Relates w (fun w => LikeResults Eq (L.values w))
            (pure r) (pure r') := by
    refine fun hResult => .pure fun w₁ hStage => ?_
    cases hResult with
    | ok hValue => exact .ok (h.values_mono hStage hValue)
    | error hSame => exact .error hSame
  have hMade :
      ∀ {es es' : List Value},
        List.Forall₂ (L.values w) es es' →
          L.Relates w
            (fun w => LikeResults (ε := ArgumentError) Eq
              (L.values w))
            (do return .ok (← Builtin.newArray es))
            (do return .ok (← Builtin.newArray es')) :=
    fun hElements => (h.newArray hElements).bind
      fun w₁ _ _ _ hValue => .pure fun w₂ hStage =>
        .ok (h.values_mono hStage hValue)
  cases b with
  | len =>
      exact hSettled (Builtin.runLen_like hMatch hArgs
        fun _ => h.plain)
  | first =>
      rcases (Builtin.oneArray_like hMatch hArgs
          .first).ok_or_error with
        ⟨es, es', hRun, hRun', hElements⟩ | ⟨e, hRun, hRun'⟩
      all_goals simp only [Builtin.run, hRun, hRun']
      · refine hSettled (.ok ?_)
        cases hElements with
        | nil => exact hNull w
        | cons hFirst _ => exact hFirst
      · exact hSettled (.error rfl)
  | last =>
      rcases (Builtin.oneArray_like hMatch hArgs
          .last).ok_or_error with
        ⟨es, es', hRun, hRun', hElements⟩ | ⟨e, hRun, hRun'⟩
      all_goals simp only [Builtin.run, hRun, hRun']
      · exact hSettled
          (.ok (Value.getLastD_like hElements (hNull w)))
      · exact hSettled (.error rfl)
  | rest =>
      rcases (Builtin.oneArray_like hMatch hArgs
          .rest).ok_or_error with
        ⟨es, es', hRun, hRun', hElements⟩ | ⟨e, hRun, hRun'⟩
      all_goals simp only [Builtin.run, hRun, hRun']
      · cases hElements with
        | nil => exact hSettled (.ok (hNull w))
        | cons _ hOthers => exact hMade hOthers
      · exact hSettled (.error rfl)
  | push =>
      rcases (Builtin.arrayAndValue_like hMatch hArgs
          .push).ok_or_error with
        ⟨p, p', hRun, hRun', hBoth⟩ | ⟨e, hRun, hRun'⟩
      all_goals simp only [Builtin.run, hRun, hRun']
      · exact hMade
          (List.rel_append hBoth.1 (.cons hBoth.2 .nil))
      · exact hSettled (.error rfl)
  | puts =>
      exact (hPrints rfl).bind fun w₁ _ _ _ _ =>
        .pure fun w₂ _ => .ok (hNull w₂)

theorem call
    [Platform]
    (depth : Nat)
    (b : Builtin)
    {args args' : List Value}
    (hArgs : List.Forall₂ (L.values w) args args')
    (hPrints :
      b = .puts →
        L.Relates w Unknown (Builtin.printValues depth args)
          (Builtin.printValues depth args')) :
    L.Relates w L.values (b.call depth args)
      (b.call depth args') := by
  refine (h.run depth b hArgs hPrints).bind
    fun w₁ _ r r' hResult => ?_
  cases hResult with
  | ok hValue => exact h.pureValue hValue
  | error hSame =>
      cases hSame
      exact h.raise trivial

------------------------------------------------------------
-- Scopes of Calls
------------------------------------------------------------

/- Names that stand for each other are bound in order. -/
theorem defineAll
    {s s' : ScopeId}
    (hScope : L.scopes w s s')
    {params params' : List Identifier}
    (hParams : List.Forall₂ L.names params params')
    {args args' : List Value}
    (hArgs : List.Forall₂ (L.values w) args args') :
    L.Relates w Unknown
      (Eval.defineAll s (params.zip args))
      (Eval.defineAll s' (params'.zip args')) := by
  induction hParams generalizing w args args' with
  | nil => exact .pure fun _ _ => trivial
  | cons hParam _ ih =>
      cases hArgs with
      | nil => exact .pure fun _ _ => trivial
      | cons hFirst hRest =>
          rw [List.zip_cons_cons, List.zip_cons_cons]
          unfold Eval.defineAll
          exact (h.define hParam hScope hFirst).bind
            fun w₁ hStage _ _ _ =>
              ih (h.scopes_mono hStage hScope)
                (h.forall₂_mono hStage hRest)

theorem callScope
    {outer outer' : ScopeId}
    (hOuter : L.outers w outer outer')
    {params params' : List Identifier}
    (hParams : List.Forall₂ L.names params params')
    {args args' : List Value}
    (hArgs : List.Forall₂ (L.values w) args args') :
    L.Relates w L.scopes (Eval.callScope outer params args)
      (Eval.callScope outer' params' args') := by
  refine (h.newScope hOuter).bind fun w₁ hStage s s' hNew => ?_
  refine (h.defineAll hNew hParams
    (h.forall₂_mono hStage hArgs)).bind fun w₂ hLater _ _ _ => ?_
  exact .pure fun _ hLast =>
    h.scopes_mono (hLater.trans hLast) hNew

end Respected

------------------------------------------------------------
-- Statements
------------------------------------------------------------

namespace Logic

variable {M N : Type → Type}
variable [Monad M] [MonadLiftT Eval M]
variable [Monad N] [MonadLiftT Eval N]
variable (K : L.Logic M N)

/- Two evaluators of nodes that stand for each other. -/
def Evaluators
    (eval : Node → ScopeId → M Value)
    (eval' : Node → ScopeId → N Value) : Prop :=
  ∀ w n n' s s', L.nodes n n' → L.scopes w s s' →
    K.rel w L.values (eval n s) (eval' n' s')

/- Two ways to apply values that stand for each other. -/
def Appliers
    (apply : Value → List Value → M Value)
    (apply' : Value → List Value → N Value) : Prop :=
  ∀ w fn fn' args args', L.values w fn fn' →
    List.Forall₂ (L.values w) args args' →
      K.rel w L.values (apply fn args) (apply' fn' args')

variable (h : L.Respected)

include h

/- The same plain value. -/
theorem purePlain
    {v : Value}
    (hPlain : v.identity? = none) :
    K.rel w L.values (Pure.pure v) (Pure.pure v) :=
  K.pure fun _ _ => h.plain hPlain

/- Values that stand for each other. -/
theorem pureValue
    {v v' : Value}
    (hValue : L.values w v v') :
    K.rel w L.values (Pure.pure v) (Pure.pure v') :=
  K.pure fun _ hStage => h.values_mono hStage hValue

/- An operand comes first; an error ends both evaluations. -/
theorem operand
    {x : M Value}
    {y : N Value}
    {f : Value → M Value}
    {g : Value → N Value}
    (hFirst : K.rel w L.values x y)
    (hNext :
      ∀ w₁, w ≤ w₁ → ∀ v v', L.values w₁ v v' →
        K.rel w₁ L.values (f v) (g v')) :
    K.rel w L.values
      (x >>= fun v => Eval.unlessError v (f v))
      (y >>= fun v => Eval.unlessError v (g v)) := by
  refine K.bind hFirst fun w₁ hStage v v' hValue => ?_
  unfold Eval.unlessError
  rw [(h.values_match hValue).isError_eq]
  split
  · exact K.pureValue h hValue
  · exact hNext w₁ hStage v v' hValue

/- New objects that match. -/
theorem make
    [Eval.MakesAtOnce M]
    [Eval.MakesAtOnce N]
    (form form' : Form)
    (hMatch :
      ∀ id id',
        L.Matches w (form.object id) (form'.object id')) :
    K.rel w L.values
      (liftM Eval.fresh >>= fun id =>
        Pure.pure (form.object id))
      (liftM Eval.fresh >>= fun id =>
        Pure.pure (form'.object id)) := by
  rw [← Eval.MakesAtOnce.liftM_make,
    ← Eval.MakesAtOnce.liftM_make]
  exact K.lift (h.make form form' hMatch)

variable {eval : Node → ScopeId → M Value}
variable {eval' : Node → ScopeId → N Value}
variable (hEval : K.Evaluators eval eval')
variable {s s' : ScopeId}
variable (hScope : L.scopes w s s')

include hEval hScope

theorem statements
    {body body' : List Node}
    {last last' : Value}
    (hBody : List.Forall₂ L.nodes body body')
    (hLast : L.values w last last') :
    K.rel w L.values (Eval.statements eval s last body)
      (Eval.statements eval' s' last' body') := by
  induction hBody generalizing w last last' with
  | nil => exact K.pureValue h hLast
  | cons hFirst _ ih =>
      refine K.bind (hEval w _ _ s s' hFirst hScope)
        fun w₁ hStage v v' hValue => ?_
      rw [(h.values_match hValue).isFinal_eq]
      split
      · exact K.pureValue h hValue
      · exact ih (h.scopes_mono hStage hScope) hValue

theorem letStatement
    {id id' : Identifier}
    (hName : L.names id id')
    {value value' : Node}
    (hValue : L.nodes value value') :
    K.rel w L.values
      (Eval.letStatement eval s id.name value)
      (Eval.letStatement eval' s' id'.name value') :=
  K.operand h (hEval w _ _ s s' hValue hScope)
    fun _ hStage _ _ hGiven =>
      K.bind
        (K.lift
          (h.define hName (h.scopes_mono hStage hScope) hGiven))
        fun _ _ _ _ _ => K.purePlain h rfl

theorem returnStatement
    [Eval.MakesAtOnce M]
    [Eval.MakesAtOnce N]
    {value value' : Option Node}
    (hValue : Option.Rel L.nodes value value') :
    K.rel w L.values (Eval.returnStatement eval s value)
      (Eval.returnStatement eval' s' value') := by
  cases hValue with
  | none =>
      exact K.make h (.returned .null) (.returned .null)
        fun id id' => .returned id id' (h.plain rfl)
  | some hValue =>
      exact K.operand h (hEval w _ _ s s' hValue hScope)
        fun _ _ v v' hGiven =>
          K.make h (.returned v) (.returned v')
            fun id id' => .returned id id' hGiven

------------------------------------------------------------
-- Expressions
------------------------------------------------------------

theorem ifElse
    {condition consequence : Node}
    {condition' consequence' : Node}
    {alternative alternative' : Option Node}
    (hCondition : L.nodes condition condition')
    (hConsequence : L.nodes consequence consequence')
    (hAlternative :
      Option.Rel L.nodes alternative alternative') :
    K.rel w L.values
      (Eval.ifElse eval s condition consequence alternative)
      (Eval.ifElse eval' s' condition' consequence'
        alternative') := by
  refine K.operand h (hEval w _ _ s s' hCondition hScope)
    fun w₁ hStage c c' hGiven => ?_
  have hLater := h.scopes_mono hStage hScope
  rw [(h.values_match hGiven).isTruthy_eq]
  split
  · exact hEval w₁ _ _ s s' hConsequence hLater
  · cases hAlternative with
    | none => exact K.purePlain h rfl
    | some hBranch => exact hEval w₁ _ _ s s' hBranch hLater

theorem prefixExpression
    (operator : String)
    {right right' : Node}
    (hRight : L.nodes right right') :
    K.rel w L.values
      (Eval.prefixExpression eval s operator right)
      (Eval.prefixExpression eval' s' operator right') := by
  refine K.operand h (hEval w _ _ s s' hRight hScope)
    fun w₁ hStage r r' hGiven => ?_
  rw [(h.values_match hGiven).applyPrefix_eq operator]
  exact K.lift (h.settle_plain
    (fun v => Value.identity?_of_applyPrefix)
    fun c => Value.nameless_of_applyPrefix)

theorem infixExpression
    (operator : String)
    {left right left' right' : Node}
    (hLeft : L.nodes left left')
    (hRight : L.nodes right right') :
    K.rel w L.values
      (Eval.infixExpression eval s left operator right)
      (Eval.infixExpression eval' s' left' operator
        right') := by
  refine K.operand h (hEval w _ _ s s' hLeft hScope)
    fun w₁ hStage l l' hFirst => ?_
  refine K.operand h
    (hEval w₁ _ _ s s' hRight (h.scopes_mono hStage hScope))
    fun w₂ hLater r r' hSecond => ?_
  have hFirst := h.values_mono hLater hFirst
  rw [(h.values_match hFirst).applyInfix_eq operator
    (h.values_match hSecond) (h.same_eq hFirst hSecond)]
  exact K.lift (h.settle_plain
    (fun v => Value.identity?_of_applyInfix)
    fun c => Value.nameless_of_applyInfix)

theorem indexExpression
    [Platform]
    {left subscript left' subscript' : Node}
    (hLeft : L.nodes left left')
    (hSubscript : L.nodes subscript subscript') :
    K.rel w L.values
      (Eval.indexExpression eval s left subscript)
      (Eval.indexExpression eval' s' left' subscript') := by
  refine K.operand h (hEval w _ _ s s' hLeft hScope)
    fun w₁ hStage l l' hFirst => ?_
  refine K.operand h
    (hEval w₁ _ _ s s' hSubscript (h.scopes_mono hStage hScope))
    fun w₂ hLater i i' hSecond => ?_
  exact K.lift
    (h.lookInside (h.values_mono hLater hFirst) hSecond)

/- The values of expressions, or the error that stops them. -/
theorem expressions
    {es es' : List Node}
    (hNodes : List.Forall₂ L.nodes es es') :
    K.rel w
      (fun w =>
        LikeResults (L.values w) (List.Forall₂ (L.values w)))
      (Eval.expressions eval s es)
      (Eval.expressions eval' s' es') := by
  induction hNodes generalizing w with
  | nil => exact K.pure fun _ _ => .ok .nil
  | cons hFirst _ ih =>
      refine K.bind (hEval w _ _ s s' hFirst hScope)
        fun w₁ hStage v v' hValue => ?_
      rw [(h.values_match hValue).isError_eq]
      split
      · exact K.pure fun _ hLater =>
          .error (h.values_mono hLater hValue)
      · refine K.bind (ih (h.scopes_mono hStage hScope))
          fun w₂ hLater r r' hOthers => ?_
        have hValue := h.values_mono hLater hValue
        cases hOthers with
        | ok hOthers =>
            exact K.pure fun _ hLast =>
              .ok (h.forall₂_mono hLast (.cons hValue hOthers))
        | error hStop =>
            exact K.pure fun _ hLast =>
              .error (h.values_mono hLast hStop)

theorem arrayLiteral
    {es es' : List Node}
    (hNodes : List.Forall₂ L.nodes es es') :
    K.rel w L.values (Eval.arrayLiteral eval s es)
      (Eval.arrayLiteral eval' s' es') := by
  refine K.bind (K.expressions h hEval hScope hNodes)
    fun w₁ _ r r' hValues => ?_
  cases hValues with
  | ok hValues => exact K.lift (h.newArray hValues)
  | error hStop => exact K.pureValue h hStop

/- The table of pairs of expressions, or the error that stops
   them. -/
theorem hashPairs
    [Platform]
    {table table' : Table HashKey (HashPair Value)}
    (hTable :
      List.Forall₂ (Value.LikeEntries (L.values w)) table
        table')
    {pairs pairs' : List (Node × Node)}
    (hPairs :
      List.Forall₂
        (fun p p' => L.nodes p.1 p'.1 ∧ L.nodes p.2 p'.2)
        pairs pairs') :
    K.rel w
      (fun w =>
        LikeResults (L.values w)
          (List.Forall₂ (Value.LikeEntries (L.values w))))
      (Eval.hashPairs eval s table pairs)
      (Eval.hashPairs eval' s' table' pairs') := by
  induction hPairs generalizing w table table' with
  | nil =>
      exact K.pure fun _ hStage =>
        .ok (h.likeEntries_mono hStage hTable)
  | cons hFirst _ ih =>
      refine K.bind (hEval w _ _ s s' hFirst.1 hScope)
        fun w₁ hStage key key' hKey => ?_
      have hMatch := h.values_match hKey
      rw [hMatch.isError_eq, hMatch.hashKey?_eq, hMatch.type_eq]
      split
      · exact K.pure fun _ hLater =>
          .error (h.values_mono hLater hKey)
      · split
        · exact K.bind (K.lift (h.raise trivial))
            fun w₂ _ e e' hError => K.pure fun _ hLast =>
              .error (h.values_mono hLast hError)
        · have hLater := h.scopes_mono hStage hScope
          refine K.bind (hEval w₁ _ _ s s' hFirst.2 hLater)
            fun w₂ hStage₂ v v' hValue => ?_
          rw [(h.values_match hValue).isError_eq]
          split
          · exact K.pure fun _ hLast =>
              .error (h.values_mono hLast hValue)
          · split
            · exact ih (h.scopes_mono hStage₂ hLater)
                (Value.insert_like
                  (h.likeEntries_mono (hStage.trans hStage₂)
                    hTable)
                  ⟨rfl, h.values_mono hStage₂ hKey, hValue⟩)
            · exact K.lift (.throw _)

theorem hashLiteral
    [Platform]
    [Eval.MakesAtOnce M]
    [Eval.MakesAtOnce N]
    {pairs pairs' : List (Node × Node)}
    (hPairs :
      List.Forall₂
        (fun p p' => L.nodes p.1 p'.1 ∧ L.nodes p.2 p'.2)
        pairs pairs') :
    K.rel w L.values (Eval.hashLiteral eval s pairs)
      (Eval.hashLiteral eval' s' pairs') := by
  refine K.bind (K.hashPairs h hEval hScope .nil hPairs)
    fun w₁ _ r r' hTable => ?_
  cases hTable with
  | error hStop => exact K.pureValue h hStop
  | @ok table table' hTable =>
      exact K.make h (.hash table) (.hash table')
        fun id id' => .hash id id' hTable

------------------------------------------------------------
-- Calls
------------------------------------------------------------

omit hScope in
/- Values are applied alike if builtin functions are. -/
theorem apply
    [Platform]
    (depth : Nat)
    {fn fn' : Value}
    (hFn : L.values w fn fn')
    {args args' : List Value}
    (hArgs : List.Forall₂ (L.values w) args args')
    (hCall :
      ∀ b, fn = .builtin b →
        K.rel w L.values
          (liftM (Builtin.call depth b args) : M Value)
          (liftM (Builtin.call depth b args') : N Value)) :
    K.rel w L.values (Eval.apply eval depth fn args)
      (Eval.apply eval' depth fn' args') := by
  have hMatch := h.values_match hFn
  cases hMatch with
  | function id id' hParams hBody hOuter =>
      refine K.bind
        (K.lift (h.callScope hOuter hParams hArgs))
        fun w₁ hStage s s' hNew => ?_
      refine K.bind (hEval w₁ _ _ s s' hBody hNew)
        fun w₂ _ v v' hValue => ?_
      exact K.pureValue h (h.unwrapReturned hValue)
  | plain hPlain =>
      cases fn with
      | function => exact hPlain.elim
      | builtin b => exact hCall b rfl
      | _ => exact K.lift (h.raise trivial)
  | _ => exact K.lift (h.raise trivial)

theorem callBy
    {apply : Value → List Value → M Value}
    {apply' : Value → List Value → N Value}
    (hApply : K.Appliers apply apply')
    {callee callee' : Node}
    (hCallee : L.nodes callee callee')
    {args args' : List Node}
    (hArgs : List.Forall₂ L.nodes args args') :
    K.rel w L.values (Eval.callBy eval apply s callee args)
      (Eval.callBy eval' apply' s' callee' args') := by
  refine K.operand h (hEval w _ _ s s' hCallee hScope)
    fun w₁ hStage fn fn' hFn => ?_
  refine K.bind
    (K.expressions h hEval (h.scopes_mono hStage hScope) hArgs)
    fun w₂ hLater r r' hValues => ?_
  cases hValues with
  | ok hValues =>
      exact hApply w₂ fn fn' _ _ (h.values_mono hLater hFn)
        hValues
  | error hStop => exact K.pureValue h hStop

------------------------------------------------------------
-- Nodes
------------------------------------------------------------

/- Where parts that stand for each other are evaluated alike, and
   values applied, so are nodes. -/
theorem stepBy
    [Platform]
    [Eval.MakesAtOnce M]
    [Eval.MakesAtOnce N]
    {apply : Value → List Value → M Value}
    {apply' : Value → List Value → N Value}
    (hApply : K.Appliers apply apply')
    (depth : Nat)
    {n n' : Node}
    (hNode : L.nodes n n') :
    K.rel w L.values (Eval.stepBy eval apply depth n s)
      (Eval.stepBy eval' apply' depth n' s') := by
  have hNull : L.values w .null .null := h.plain rfl
  cases h.nodes_match hNode with
  | identifier hName => exact K.lift (h.identifier hName hScope)
  | integer | boolean | string => exact K.purePlain h rfl
  | prefixOp _ _ operator hRight =>
      exact K.prefixExpression h hEval hScope operator hRight
  | infixOp _ _ operator hLeft hRight =>
      exact K.infixExpression h hEval hScope operator hLeft
        hRight
  | ifElse _ _ hCondition hConsequence hAlternative =>
      exact K.ifElse h hEval hScope hCondition hConsequence
        hAlternative
  | @function _ _ params params' body body' hParams hBody =>
      exact K.make h (.function params body s)
        (.function params' body' s') fun id id' =>
          .function id id' hParams hBody (h.captures hScope)
  | call _ _ hCallee hArgs =>
      exact K.callBy h hEval hScope hApply hCallee hArgs
  | array _ _ hElements =>
      exact K.arrayLiteral h hEval hScope hElements
  | index _ _ hLeft hSubscript =>
      exact K.indexExpression h hEval hScope hLeft hSubscript
  | hash _ _ hPairs => exact K.hashLiteral h hEval hScope hPairs
  | letStmt _ _ hName hValue =>
      exact K.letStatement h hEval hScope hName hValue
  | returnStmt _ _ hValue =>
      exact K.returnStatement h hEval hScope hValue
  | exprStmt _ _ hExpression =>
      exact hEval w _ _ s s' hExpression hScope
  | block _ _ hBody =>
      exact K.statements h hEval hScope hBody hNull
  | program hBody =>
      refine K.bind (K.statements h hEval hScope hBody hNull)
        fun w₁ _ v v' hValue => ?_
      exact K.pureValue h (h.unwrapReturned hValue)
  | foreign => exact K.lift (.throw _)

end Logic

------------------------------------------------------------
-- Evaluations
------------------------------------------------------------

variable [Platform]

/- The computations themselves, without any other effects. -/
def plainLogic (L : Likeness W) : L.Logic Eval Eval where
  rel := L.Relates
  pure := Relates.pure
  bind := Relates.bind
  lift := id

theorem Respected.apply
    (h : L.Respected)
    (hPrints : L.Prints)
    {eval eval' : Node → ScopeId → Eval Value}
    (hEval : L.plainLogic.Evaluators eval eval')
    (depth : Nat) :
    L.plainLogic.Appliers
      (Eval.apply (M := Eval) eval depth)
      (Eval.apply (M := Eval) eval' depth) :=
  fun w _ _ args args' hFn hArgs =>
    L.plainLogic.apply h hEval depth hFn hArgs fun b _ =>
      h.call depth b hArgs fun _ =>
        hPrints w depth args args' hArgs

/- Evaluation to any depth keeps to a likeness, if printing
   does. -/
theorem Respected.evaluateWithin
    (h : L.Respected)
    (hPrints : L.Prints)
    (depth : Nat) :
    L.plainLogic.Evaluators (Eval.evaluateWithin depth)
      (Eval.evaluateWithin depth) := by
  induction depth with
  | zero => exact fun _ _ _ _ _ _ _ => .throw _
  | succ depth ih =>
      intro w n n' s s' hNode hScope
      unfold Eval.evaluateWithin
      rw [Eval.step_eq_stepBy, Eval.step_eq_stepBy]
      exact L.plainLogic.stepBy h ih hScope
        (h.apply hPrints ih depth) depth hNode

namespace Closed

variable (h : L.Closed)

include h

omit [Platform] in
theorem raise
    (message : String) :
    L.Relates w L.values (Eval.raise message)
      (Eval.raise message) :=
  h.make (.error message) (.error message)
    fun id id' => .error id id' (h.messages_refl id message)

/- Names with the same text have values that stand for each
   other. -/
omit [Platform] in
theorem identifier
    {s s' : ScopeId}
    (hScope : L.scopes w s s')
    (name : String) :
    L.Relates w L.values (Eval.identifier s name)
      (Eval.identifier s' name) := by
  refine (h.lookup name hScope).bind
    fun w₁ _ found found' hFound => ?_
  cases hFound with
  | some hValue =>
      exact .pure fun _ hStage => h.values_mono hStage hValue
  | none =>
      dsimp only
      split
      · exact .pure fun _ _ => h.plain rfl
      · exact h.raise _

omit [Platform] in
theorem respected : L.Respected where
  values_mono := h.values_mono
  scopes_mono := h.scopes_mono
  captures := h.captures
  nodes_match := h.nodes_match
  values_match := h.values_match
  same_eq := h.same_eq
  plain := h.plain
  nameless _ _ _ := h.messages_refl _ _
  make := h.make
  newScope := h.newScope
  define := by
    intro w s s' v v' id id' hName hScope hValue
    rw [h.names_eq hName]
    exact h.define _ hScope hValue
  identifier := by
    intro w s s' id id' hName hScope
    rw [h.names_eq hName]
    exact h.identifier hScope _

theorem prints : L.Prints := by
  intro w depth vs vs' hValues
  induction vs generalizing w vs' with
  | nil =>
      cases hValues
      exact .pure fun _ _ => trivial
  | cons v rest ih =>
      cases hValues with
      | @cons _ v' _ rest' hFirst hRest =>
          unfold Builtin.printValues Builtin.lineFor
          rw [h.inspect_eq hFirst depth]
          refine (Relates.ofExcept _).bind
            fun w₁ hStage line _ hLine => ?_
          subst hLine
          refine (h.printLine line).bind fun w₂ hLater _ _ _ => ?_
          exact ih w₂ rest'
            (h.respected.forall₂_mono (hStage.trans hLater) hRest)

/- Evaluation to any depth respects a closed likeness. -/
theorem evaluateWithin
    (depth : Nat) :
    L.plainLogic.Evaluators (Eval.evaluateWithin depth)
      (Eval.evaluateWithin depth) :=
  h.respected.evaluateWithin h.prints depth

theorem apply
    {eval eval' : Node → ScopeId → Eval Value}
    (hEval : L.plainLogic.Evaluators eval eval')
    (depth : Nat)
    {fn fn' : Value}
    (hFn : L.values w fn fn')
    {args args' : List Value}
    (hArgs : List.Forall₂ (L.values w) args args') :
    L.Relates w L.values
      (Eval.apply (M := Eval) eval depth fn args)
      (Eval.apply (M := Eval) eval' depth fn' args') :=
  h.respected.apply h.prints hEval depth w fn fn' args args'
    hFn hArgs

end Closed

end Likeness

end Monkey
