import Monkey.Proofs.Eval.Keeps

/-
  The moments of an evaluation.

  `Watched` is `Eval` with a record of everything there is to see
  on the way: the machine after each step, each value that a part
  of a node gives, and the arguments that are passed to functions,
  which are bound one at a time.  Leaving out the record gives
  back the evaluation itself, and what an evaluation keeps to
  holds at each of its moments.

  Main declarations:
    * `Sight`
    * `Eval.evaluateWatched`
    * `Eval.erase_evaluateWatched`
    * `Eval.sights`
    * `Eval.sights_kept`
-/

namespace Monkey

------------------------------------------------------------
-- Moments
------------------------------------------------------------

/- What there is to see at a moment: the machine, a value that
   has just been given, and arguments that are being passed. -/
structure Sight where
  machine : Machine
  given : Option Value
  passed : List Value

/- A moment with nothing to see but the machine. -/
def Sight.between (m : Machine) : Sight where
  machine := m
  given := none
  passed := []

/- The moment at which an evaluation is over. -/
def Sight.final :
    EStateM.Result Failure Machine Value → Sight
  | .ok v m => { machine := m, given := some v, passed := [] }
  | .error _ m => .between m

/- A machine and the moments that led to it. -/
structure History where
  machine : Machine
  sights : List Sight

namespace History

/- A history that begins at a machine. -/
def start (m : Machine) : History where
  machine := m
  sights := [.between m]

/- A step has led to another machine. -/
def reach
    (h : History)
    (m : Machine) :
    History where
  machine := m
  sights := h.sights ++ [.between m]

/- There is more to see than the machine. -/
def note
    (h : History)
    (given : Option Value)
    (passed : List Value) :
    History :=
  { h with
    sights :=
      h.sights ++ [{ machine := h.machine, given, passed }] }

end History

------------------------------------------------------------
-- Watched Computations
------------------------------------------------------------

variable [Platform]

/- A computation on a machine with its history. -/
abbrev Watched := EStateM Failure History

namespace Watched

variable {α β : Type}

/- The result of a step, as a part of a history. -/
def record
    (h : History) :
    EStateM.Result Failure Machine α →
      EStateM.Result Failure History α
  | .ok a m => .ok a (h.reach m)
  | .error f m => .error f (h.reach m)

instance : MonadLift Eval Watched where
  monadLift x := fun h => record h (x h.machine)

/- A result without its history. -/
def erase :
    EStateM.Result Failure History α →
      EStateM.Result Failure Machine α
  | .ok a h => .ok a h.machine
  | .error f h => .error f h.machine

/- The history of a result. -/
def historyOf :
    EStateM.Result Failure History α → History
  | .ok _ h => h
  | .error _ h => h

/- A part gives a value. -/
def part
    (eval : Node → ScopeId → Watched Value)
    (node : Node)
    (scope : ScopeId) :
    Watched Value := do
  let v ← eval node scope
  modify fun h => h.note (some v) []
  return v

/- Bind names in order, each in a step of its own. -/
def defineAll
    (scope : ScopeId) :
    List (Identifier × Value) → Watched Unit
  | [] => pure ()
  | (param, v) :: rest => do
      Eval.define scope param.name v
      defineAll scope rest

/- Apply a function to arguments, once they have been seen. -/
def apply
    (eval : Node → ScopeId → Watched Value)
    (depth : Nat)
    (fn : Value)
    (args : List Value) :
    Watched Value := do
  modify fun h => h.note none args
  match fn with
  | .function _ params body outer =>
      let scope ← Eval.newScope (some outer)
      defineAll scope (params.zip args)
      let v ← eval body scope
      return v.unwrapReturned
  | other => Eval.apply eval depth other args

/- Evaluate a callee and its arguments, and apply the one to the
   others. -/
def callExpression
    (eval : Node → ScopeId → Watched Value)
    (depth : Nat)
    (scope : ScopeId)
    (callee : Node)
    (args : List Node) :
    Watched Value := do
  let fn ← eval callee scope
  Eval.unlessError fn do
    match (← Eval.expressions eval scope args) with
    | .ok vs => apply eval depth fn vs
    | .error stop => return stop

/- Evaluate a node whose parts are evaluated by `eval`. -/
def step
    (eval : Node → ScopeId → Watched Value)
    (depth : Nat)
    (node : Node)
    (scope : ScopeId) :
    Watched Value :=
  match node with
  | .call _ callee args =>
      callExpression eval depth scope callee args
  | other => Eval.step eval depth other scope

theorem step_eq_stepBy
    (eval : Node → ScopeId → Watched Value)
    (depth : Nat)
    (node : Node)
    (scope : ScopeId) :
    step eval depth node scope =
      Eval.stepBy eval (apply eval depth) depth node scope := by
  cases node <;> rfl

end Watched

namespace Eval

/- Evaluate a node, and keep its history. -/
def evaluateWatched : Nat → Node → ScopeId → Watched Value
  | 0, _, _ => liftM (throw .tooDeep : Eval Value)
  | depth + 1, node, scope =>
      Watched.step (Watched.part (evaluateWatched depth)) depth
        node scope

/- The moments of an evaluation, from its beginning to its end,
   also if it fails. -/
def sights
    (depth : Nat)
    (node : Node)
    (scope : ScopeId)
    (m : Machine) :
    List Sight :=
  (Watched.historyOf
      (evaluateWatched depth node scope (.start m))).sights ++
    [.final (evaluateWithin depth node scope m)]

end Eval

------------------------------------------------------------
-- Leaving Out the History
------------------------------------------------------------

/- The steps in which a function is applied. -/
theorem Eval.apply_function
    (eval : Node → ScopeId → Eval Value)
    (depth : Nat)
    (id : Identity)
    (params : List Identifier)
    (body : Node)
    (outer : ScopeId)
    (args : List Value) :
    apply eval depth (.function id params body outer) args =
      (do
        let scope ← newScope (some outer)
        defineAll scope (params.zip args)
        let v ← eval body scope
        return v.unwrapReturned) := by
  change callScope outer params args >>= _ = _
  simp only [callScope, bind_assoc, pure_bind]

namespace Watched

/- A watched computation and what it is without its history. -/
def erasure : Eval.Simulation Watched Eval where
  rel x y := ∀ h, erase (x h) = y h.machine
  pure _ _ := rfl
  bind := by
    intro α β x y f g hx hf h
    have hFirst := hx h
    change erase (EStateM.bind x f h) = EStateM.bind y g h.machine
    unfold EStateM.bind
    rw [← hFirst]
    cases x h with
    | ok a h' => exact hf a h'
    | error e h' => rfl
  lift x h := by
    change erase (record h (x h.machine)) = x h.machine
    cases x h.machine <;> rfl

variable {f : Node → ScopeId → Watched Value}
variable {g : Node → ScopeId → Eval Value}

/- What is shown does not count without the history. -/
omit [Platform] in
theorem erasure_note
    {α : Type}
    {given : Option Value}
    {passed : List Value}
    {x : Watched α}
    {y : Eval α}
    (h : erasure.rel x y) :
    erasure.rel
      (do
        modify fun h => h.note given passed
        x)
      y :=
  fun history => h (history.note given passed)

/- Binding names one at a time is binding them. -/
omit [Platform] in
theorem erasure_defineAll
    (scope : ScopeId)
    (bound : List (Identifier × Value)) :
    erasure.rel (defineAll scope bound)
      (Eval.defineAll scope bound) := by
  induction bound with
  | nil => exact erasure.pure ()
  | cons pair rest ih =>
      exact erasure.bind (erasure.lift _) fun _ => ih

variable
  (h : ∀ n scope, erasure.rel (f n scope) (g n scope))

include h

omit [Platform] in
theorem erasure_part
    (node : Node)
    (scope : ScopeId) :
    erasure.rel (part f node scope) (g node scope) := by
  rw [← bind_pure (g node scope)]
  exact erasure.bind (h node scope) fun v =>
    erasure_note (erasure.pure v)

theorem erasure_apply
    (depth : Nat)
    (fn : Value)
    (args : List Value) :
    erasure.rel (apply f depth fn args)
      (Eval.apply g depth fn args) := by
  refine erasure_note ?_
  cases fn with
  | function id params body outer =>
      rw [Eval.apply_function]
      exact erasure.bind (erasure.lift _) fun scope =>
        erasure.bind (erasure_defineAll scope _) fun _ =>
          erasure.bind (h body scope) fun v => erasure.pure _
  | _ => exact erasure.apply h depth _ args

theorem erasure_step
    (depth : Nat)
    (node : Node)
    (scope : ScopeId) :
    erasure.rel (step f depth node scope)
      (Eval.step g depth node scope) := by
  rw [step_eq_stepBy, Eval.step_eq_stepBy]
  exact erasure.stepBy h (erasure_apply h depth) depth node
    scope

end Watched

/- A history changes nothing. -/
theorem Eval.erase_evaluateWatched
    (depth : Nat)
    (node : Node)
    (scope : ScopeId)
    (h : History) :
    Watched.erase (evaluateWatched depth node scope h) =
      evaluateWithin depth node scope h.machine := by
  have hErasure :
      ∀ n s,
        Watched.erasure.rel (evaluateWatched depth n s)
          (evaluateWithin depth n s) := by
    induction depth with
    | zero => exact fun _ _ => Watched.erasure.lift _
    | succ depth ih =>
        exact fun n s =>
          Watched.erasure_step (Watched.erasure_part ih) depth n s
  exact hErasure node scope h

------------------------------------------------------------
-- What Holds at Every Moment
------------------------------------------------------------

/- Everything there is to see at a moment keeps to a regime. -/
structure Sight.Kept
    (R : Regime)
    (sight : Sight) : Prop where
  machine : R.Holds sight.machine
  given : ∀ v ∈ sight.given, v.Carried R.ok
  passed : ∀ v ∈ sight.passed, v.Within R.ok

/- A history keeps to a regime up to the machine it led to. -/
structure History.Kept
    (R : Regime)
    (h : History) : Prop where
  machine : R.Holds h.machine
  sights : ∀ sight ∈ h.sights, sight.Kept R

variable {R : Regime}

omit [Platform] in
theorem Sight.between_kept
    {m : Machine}
    (hHolds : R.Holds m) :
    (Sight.between m).Kept R where
  machine := hHolds
  given := nofun
  passed := nofun

namespace History

variable {h : History}

omit [Platform] in
theorem start_kept
    {m : Machine}
    (hHolds : R.Holds m) :
    (start m).Kept R where
  machine := hHolds
  sights := by
    intro sight hMem
    rw [List.mem_singleton.mp hMem]
    exact Sight.between_kept hHolds

omit [Platform] in
theorem Kept.reach
    (hKept : h.Kept R)
    {m : Machine}
    (hHolds : R.Holds m) :
    (h.reach m).Kept R where
  machine := hHolds
  sights := by
    intro sight hMem
    rcases List.mem_append.mp hMem with hBefore | hNow
    · exact hKept.sights sight hBefore
    · rw [List.mem_singleton.mp hNow]
      exact Sight.between_kept hHolds

omit [Platform] in
theorem Kept.note
    (hKept : h.Kept R)
    {given : Option Value}
    {passed : List Value}
    (hGiven : ∀ v ∈ given, v.Carried R.ok)
    (hPassed : ∀ v ∈ passed, v.Within R.ok) :
    (h.note given passed).Kept R where
  machine := hKept.machine
  sights := by
    intro sight hMem
    rcases List.mem_append.mp hMem with hBefore | hNow
    · exact hKept.sights sight hBefore
    · rw [List.mem_singleton.mp hNow]
      exact ⟨hKept.machine, hGiven, hPassed⟩

end History

namespace Watched

/- A result whose history keeps to a regime, and whose value or
   failure is as wanted. -/
def Lands
    {α : Type}
    (R : Regime)
    (good : α → Prop) :
    EStateM.Result Failure History α → Prop
  | .ok a h => h.Kept R ∧ good a
  | .error f h => h.Kept R ∧ R.stop f

omit [Platform] in
theorem Lands.history_kept
    {α : Type}
    {good : α → Prop}
    {r : EStateM.Result Failure History α}
    (h : Lands R good r) :
    (historyOf r).Kept R := by
  cases r <;> exact h.1

omit [Platform] in
theorem Lands.final_kept
    {r : EStateM.Result Failure History Value}
    (h : Lands R (Value.Carried R.ok) r) :
    (Sight.final (erase r)).Kept R := by
  cases r with
  | ok v last =>
      refine ⟨h.1.machine, ?_, nofun⟩
      rintro _ ⟨⟩
      exact h.2
  | error f last => exact Sight.between_kept h.1.machine

/- A computation keeps to a regime at every moment, also when it
   fails, and gives what is wanted. -/
def Keeps
    {α : Type}
    (R : Regime)
    (good : α → Prop)
    (x : Watched α) : Prop :=
  ∀ h : History, h.Kept R → Lands R good (x h)

/- Keeping to a regime at every moment is a logic of it. -/
def logic (R : Regime) : R.Logic Watched where
  keeps := Keeps R
  pure hGood _ hKept := ⟨hKept, hGood⟩
  bind := by
    intro α β good good' x f hx hf h hKept
    have hFirst := hx h hKept
    change Lands R good' (EStateM.bind x f h)
    unfold EStateM.bind
    cases hResult : x h with
    | ok a h' =>
        rw [hResult] at hFirst
        exact hf a hFirst.2 h' hFirst.1
    | error e h' =>
        rw [hResult] at hFirst
        exact hFirst
  mono := by
    intro α good wider x hx hWider h hKept
    have hLands := hx h hKept
    cases hResult : x h with
    | ok a h' =>
        rw [hResult] at hLands
        exact ⟨hLands.1, hWider a hLands.2⟩
    | error e h' =>
        rw [hResult] at hLands
        exact hLands
  lift := by
    intro α good x hx h hKept
    have hLands := hx h.machine hKept.machine
    change Lands R good (record h (x h.machine))
    cases hResult : x h.machine with
    | ok a m =>
        rw [hResult] at hLands
        exact ⟨hKept.reach hLands.1, hLands.2⟩
    | error e m =>
        rw [hResult] at hLands
        exact ⟨hKept.reach hLands.1, hLands.2⟩

omit [Platform] in
theorem keeps_note
    {given : Option Value}
    {passed : List Value}
    (hGiven : ∀ v ∈ given, v.Carried R.ok)
    (hPassed : ∀ v ∈ passed, v.Within R.ok) :
    Keeps R (fun _ => True)
      (modify fun h => h.note given passed) :=
  fun _ hKept => ⟨hKept.note hGiven hPassed, trivial⟩

omit [Platform] in
theorem keeps_defineAll
    (scope : ScopeId)
    {bound : List (Identifier × Value)}
    (hBound : ∀ pair ∈ bound, pair.2.Within R.ok) :
    Keeps R (fun _ => True) (defineAll scope bound) := by
  induction bound with
  | nil => exact (logic R).pure trivial
  | cons pair rest ih =>
      rcases List.forall_mem_cons.mp hBound with
        ⟨hFirst, hRest⟩
      exact (logic R).act (Eval.keeps_define scope _ hFirst)
        fun _ _ => ih hRest

variable {fits : Event → Prop}
variable {eval : Node → ScopeId → Watched Value}

/- A part of a node may give a return mark, which can be stored
   like anything else. -/
theorem keeps_part
    (hSuits : R.Suits fits)
    (hFits : ∀ e, fits e)
    (parent : Node)
    {node : Node}
    {scope : ScopeId}
    (h : Keeps R (Value.Carried R.ok) (eval node scope)) :
    Keeps R (Value.Given R fits parent node scope)
      (part eval node scope) := by
  refine (logic R).bind h fun v hCarried => ?_
  have hGiven : ∀ w ∈ some v, w.Carried R.ok := by
    rintro w ⟨⟩
    exact hCarried
  refine (logic R).bind (keeps_note hGiven nofun)
    fun _ _ => ?_
  exact (logic R).pure
    (hCarried.given hSuits hFits parent node scope)

variable (hSuits : R.Suits fits)
variable {depth : Nat}
variable
  (hBody :
    ∀ n s, R.inside s → R.code n →
      Keeps R (Value.Carried R.ok) (eval n s))

include hSuits hBody

/- `puts` may stop at anything it gets. -/
theorem keeps_apply
    (hStop : ∀ f, R.stop f)
    {fn : Value}
    {args : List Value}
    (hFn : fn.Carried R.ok)
    (hArgs : ∀ v ∈ args, v.Within R.ok) :
    Keeps R (Value.Carried R.ok)
      (apply eval depth fn args) := by
  have hOk := hSuits.allows
  refine (logic R).bind (keeps_note nofun hArgs) fun _ _ => ?_
  split
  · next id params body outer =>
      rcases hFn.function hOk with ⟨hOuter, hCode⟩
      refine (logic R).act (Eval.keeps_newScope hOuter)
        fun scope hScope => ?_
      refine (logic R).bind (keeps_defineAll scope ?_)
        fun _ _ => ?_
      · intro pair hPair
        exact hArgs _ (List.of_mem_zip hPair).2
      · exact (logic R).bind (hBody body scope hScope hCode)
          fun v hCarried =>
            (logic R).pure hCarried.unwrapReturned.carried
  · exact (logic R).apply hOk hBody hFn hArgs
      fun _ _ _ f _ => hStop f

end Watched

/-
  Evaluation of a node of a regime in a scope of it keeps to the
  regime at every moment, if events and failures of any kind are
  allowed.
-/
theorem Watched.keeps_evaluateWatched
    {fits : Event → Prop}
    (hSuits : R.Suits fits)
    (hFits : ∀ e, fits e)
    (hStop : ∀ f, R.stop f)
    (depth : Nat)
    {node : Node}
    {scope : ScopeId}
    (hNode : R.code node)
    (hScope : R.inside scope) :
    Keeps R (Value.Carried R.ok)
      (Eval.evaluateWatched depth node scope) := by
  induction depth generalizing node scope with
  | zero => exact (logic R).lift (.throw hSuits.tooDeep)
  | succ depth ih =>
      have hParts :
          ∀ n s, R.inside s → R.code n →
            Keeps R (Value.Given R fits node n s)
              (part (Eval.evaluateWatched depth) n s) :=
        fun n s hInside hCode =>
          keeps_part hSuits hFits node (ih hCode hInside)
      have hBody :
          ∀ n s, R.inside s → R.code n →
            Keeps R (Value.Carried R.ok)
              (part (Eval.evaluateWatched depth) n s) :=
        fun n s hInside hCode =>
          (logic R).mono (hParts n s hInside hCode)
            fun _ h => h.carried
      unfold Eval.evaluateWatched
      rw [step_eq_stepBy]
      exact (logic R).stepBy hSuits hNode hScope hParts
        fun hFn hArgs =>
          keeps_apply hSuits hBody hStop hFn hArgs

/- What evaluation keeps to holds at every moment of it. -/
theorem Eval.sights_kept
    {fits : Event → Prop}
    (hSuits : R.Suits fits)
    (hFits : ∀ e, fits e)
    (hStop : ∀ f, R.stop f)
    (depth : Nat)
    {node : Node}
    {scope : ScopeId}
    {m : Machine}
    (hNode : R.code node)
    (hScope : R.inside scope)
    (hHolds : R.Holds m) :
    ∀ sight ∈ sights depth node scope m, sight.Kept R := by
  have hLands :=
    Watched.keeps_evaluateWatched hSuits hFits hStop depth hNode
      hScope (.start m) (History.start_kept hHolds)
  have hFinal :
      (Sight.final (evaluateWithin depth node scope m)).Kept R :=
    erase_evaluateWatched depth node scope (.start m) ▸
      hLands.final_kept
  intro sight hMem
  rcases List.mem_append.mp hMem with hBefore | hEnd
  · exact hLands.history_kept.sights sight hBefore
  · rw [List.mem_singleton.mp hEnd]
    exact hFinal

/- The last moment of an evaluation is that of its result. -/
theorem Eval.final_mem_sights
    (depth : Nat)
    (node : Node)
    (scope : ScopeId)
    (m : Machine) :
    Sight.final (evaluateWithin depth node scope m) ∈
      sights depth node scope m :=
  List.mem_append_right _ (List.mem_singleton_self _)

/- A property that evaluation may give to everything, return marks
   among it, holds of everything stored at every moment. -/
theorem Eval.sights_kept_of_allows
    {ok : Value → Prop}
    {inside : ScopeId → Prop}
    (hOk : Value.Allows ok inside fun _ => True)
    (hMarks : ∀ id v, ok (.returned id v))
    (depth : Nat)
    (node : Node)
    {scope : ScopeId}
    {m : Machine}
    (hScope : inside scope)
    (hHolds : m.Holds ok inside) :
    ∀ sight ∈ sights depth node scope m,
      sight.Kept (Logged.regimeOf ok inside) := by
  have hFits : ∀ e : Event, e.Fits ok :=
    fun _ _ _ _ id v _ _ _ => hMarks id v
  exact sights_kept (Logged.regimeOf_suits hOk) hFits
    (fun _ => trivial) depth trivial hScope hHolds

/- What is given then can be stored as well. -/
omit [Platform] in
theorem Sight.Kept.storable
    {sight : Sight}
    (h : sight.Kept R)
    (hMarks : ∀ id v, R.ok (.returned id v)) :
    ∀ v ∈ sight.given, v.Storable R.ok := by
  intro v hGiven
  refine (h.given v hGiven).storable ?_
  rintro id w rfl
  exact hMarks id w

end Monkey
