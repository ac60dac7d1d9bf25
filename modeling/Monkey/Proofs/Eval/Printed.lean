import Monkey.Proofs.Eval.Keeps
import Monkey.Proofs.Eval.Likeness

/-
  The values that an evaluation prints.

  `Printing` is `Eval` with a record of the values that `puts`
  has printed.  The rules are the same, so that leaving out the
  record gives back the evaluation itself.  What evaluation keeps
  to holds of the values it prints.

  Main declarations:
    * `Printing`
    * `Eval.printed`
    * `Eval.evaluatePrinting_result`
    * `Eval.printed_within`
-/

namespace Monkey

------------------------------------------------------------
-- Computations That Print
------------------------------------------------------------

variable [Platform]

/- A computation on a machine, and the values printed in it. -/
def Printing (α : Type) : Type :=
  Machine → List Value × EStateM.Result Failure Machine α

namespace Printing

variable {α β : Type}

/- Go on with a result after which more is printed. -/
def andThen
    (x : List Value × EStateM.Result Failure Machine α)
    (f : α → Printing β) :
    List Value × EStateM.Result Failure Machine β :=
  match x.2 with
  | .ok a m => (x.1 ++ (f a m).1, (f a m).2)
  | .error e m => (x.1, .error e m)

instance : Monad Printing where
  pure a := fun m => ([], .ok a m)
  bind x f := fun m => andThen (x m) f

instance : MonadLift Eval Printing where
  monadLift x := fun m => ([], x m)

instance : LawfulMonadLiftT Eval Printing where
  monadLift_pure _ := rfl
  monadLift_bind x f := by
    funext m
    change ([], EStateM.bind x f m) = andThen ([], x m) _
    unfold EStateM.bind andThen
    cases x m <;> rfl

/- The computation without its record. -/
def result (x : Printing α) : Eval α :=
  fun m => (x m).2

/- Print a value on a line. -/
def print
    (v : Value)
    (line : String) :
    Printing Unit :=
  fun m => ([v], Eval.printLine line m)

/- Print the written form of each value on its own line. -/
def printValues
    (depth : Nat) :
    List Value → Printing Unit
  | [] => pure ()
  | v :: others => do
      let line ← Eval.ofExcept (Builtin.lineFor depth v)
      print v line
      printValues depth others

/- Apply a function to arguments.  Only `puts` prints. -/
def apply
    (eval : Node → ScopeId → Printing Value)
    (depth : Nat)
    (fn : Value)
    (args : List Value) :
    Printing Value :=
  match fn with
  | .builtin .puts => do
      printValues depth args
      return .null
  | other => Eval.apply eval depth other args

end Printing

namespace Eval

/- Evaluate a node, and keep a record of what is printed. -/
def evaluatePrinting : Nat → Node → ScopeId → Printing Value
  | 0, _, _ => liftM (throw .tooDeep : Eval Value)
  | depth + 1, node, scope =>
      stepBy (evaluatePrinting depth)
        (Printing.apply (evaluatePrinting depth) depth) depth
        node scope

/- The values that an evaluation prints, in order, also if it
   fails. -/
def printed
    (depth : Nat)
    (node : Node)
    (scope : ScopeId)
    (m : Machine) :
    List Value :=
  (evaluatePrinting depth node scope m).1

end Eval

------------------------------------------------------------
-- Leaving Out the Record
------------------------------------------------------------

/- `puts` prints and gives nothing. -/
theorem Eval.apply_puts
    (eval : Node → ScopeId → Eval Value)
    (depth : Nat)
    (args : List Value) :
    apply eval depth (.builtin .puts) args =
      (do
        Builtin.printValues depth args
        return .null) := by
  change Builtin.call depth .puts args = _
  unfold Builtin.call Builtin.run
  simp only [bind_assoc, pure_bind]

namespace Printing

/- A computation that prints and what it is without its
   record. -/
def erasure : Eval.Simulation Printing Eval where
  rel x y := x.result = y
  pure _ := rfl
  bind := by
    intro α β x y f g hx hf
    funext m
    subst hx
    change (andThen (x m) f).2 = EStateM.bind _ _ m
    unfold andThen EStateM.bind result
    cases (x m).2 with
    | ok a m' => exact congrFun (hf a) m'
    | error e m' => rfl
  lift _ := rfl

/- What a part prints is printed. -/
omit [Platform] in
theorem mem_bind_left
    {α β : Type}
    {x : Printing α}
    {f : α → Printing β}
    {m : Machine}
    {v : Value}
    (h : v ∈ (x m).1) :
    v ∈ ((x >>= f) m).1 := by
  change v ∈ (andThen (x m) f).1
  unfold andThen
  split
  · exact List.mem_append_left _ h
  · exact h

/- What is printed after a part is printed. -/
omit [Platform] in
theorem mem_bind_right
    {α β : Type}
    {x : Printing α}
    {f : α → Printing β}
    {m m' : Machine}
    {a : α}
    {v : Value}
    (hResult : x.result m = .ok a m')
    (h : v ∈ (f a m').1) :
    v ∈ ((x >>= f) m).1 := by
  have hOk : (x m).2 = .ok a m' := hResult
  change v ∈ (andThen (x m) f).1
  unfold andThen
  rw [hOk]
  exact List.mem_append_right _ h

theorem erasure_printValues
    (depth : Nat)
    (vs : List Value) :
    erasure.rel (printValues depth vs)
      (Builtin.printValues depth vs) := by
  induction vs with
  | nil => exact erasure.pure ()
  | cons v others ih =>
      refine erasure.bind (erasure.lift _) fun line => ?_
      exact erasure.bind (x := print v line) rfl fun _ => ih

theorem erasure_apply
    {f : Node → ScopeId → Printing Value}
    {g : Node → ScopeId → Eval Value}
    (h : ∀ n scope, erasure.rel (f n scope) (g n scope))
    (depth : Nat)
    (fn : Value)
    (args : List Value) :
    erasure.rel (apply f depth fn args)
      (Eval.apply g depth fn args) := by
  unfold apply
  split
  · rw [Eval.apply_puts]
    exact erasure.bind (erasure_printValues depth args)
      fun _ => erasure.pure _
  · exact erasure.apply h depth _ args

end Printing

/- A record changes nothing. -/
theorem Eval.evaluatePrinting_result
    (depth : Nat)
    (node : Node)
    (scope : ScopeId) :
    (evaluatePrinting depth node scope).result =
      evaluateWithin depth node scope := by
  induction depth generalizing node scope with
  | zero => rfl
  | succ depth ih =>
      unfold evaluateWithin
      rw [step_eq_stepBy]
      exact Printing.erasure.stepBy ih
        (Printing.erasure_apply ih depth) depth node scope

------------------------------------------------------------
-- What Is Printed
------------------------------------------------------------

namespace Printing

variable {R : Regime}

/- A computation prints values with the property of a regime and
   keeps to it, also when it fails, and gives what is wanted. -/
def Keeps
    {α : Type}
    (R : Regime)
    (good : α → Prop)
    (x : Printing α) : Prop :=
  ∀ m, R.Holds m →
    (∀ v ∈ (x m).1, v.Within R.ok) ∧ Lands R good (x m).2

/- Printing only values of a regime is a logic of it. -/
def logic (R : Regime) : R.Logic Printing where
  keeps := Keeps R
  pure hGood m hHolds := ⟨nofun, hHolds, hGood⟩
  bind := by
    intro α β good good' x f hx hf m hHolds
    rcases hx m hHolds with ⟨hPrinted, hLands⟩
    change (∀ v ∈ (andThen (x m) f).1, _) ∧
      Lands R good' (andThen (x m) f).2
    unfold andThen
    cases hResult : (x m).2 with
    | ok a m' =>
        rw [hResult] at hLands
        rcases hf a hLands.2 m' hLands.1 with ⟨hMore, hLast⟩
        refine ⟨fun v hMem => ?_, hLast⟩
        exact (List.mem_append.mp hMem).elim (hPrinted v)
          (hMore v)
    | error e m' =>
        rw [hResult] at hLands
        exact ⟨hPrinted, hLands⟩
  mono hx hWider m hHolds :=
    ⟨(hx m hHolds).1, (hx m hHolds).2.mono hWider⟩
  lift hx m hHolds := ⟨nofun, hx m hHolds⟩

omit [Platform] in
theorem keeps_print
    {v : Value}
    (hValue : v.Within R.ok)
    (line : String) :
    Keeps R (fun _ => True) (print v line) := by
  intro m hHolds
  refine ⟨fun w hMem => ?_, Eval.keeps_printLine line m hHolds⟩
  rw [List.mem_singleton.mp hMem]
  exact hValue

variable (hStop : ∀ f, R.stop f)

include hStop

theorem keeps_printValues
    (depth : Nat)
    {vs : List Value}
    (hValues : ∀ v ∈ vs, v.Within R.ok) :
    Keeps R (fun _ => True) (printValues depth vs) := by
  induction vs with
  | nil => exact (logic R).pure trivial
  | cons v others ih =>
      rcases List.forall_mem_cons.mp hValues with
        ⟨hFirst, hOthers⟩
      refine (logic R).act
        (Eval.keeps_ofExcept fun f _ => hStop f)
        fun line _ => ?_
      exact (logic R).bind (keeps_print hFirst line)
        fun _ _ => ih hOthers

variable {fits : Event → Prop}
variable (hSuits : R.Suits fits)
variable {eval : Node → ScopeId → Printing Value}
variable {depth : Nat}
variable
  (hBody :
    ∀ n s, R.inside s → R.code n →
      Keeps R (Value.Carried R.ok) (eval n s))

include hSuits hBody

theorem keeps_apply
    {fn : Value}
    {args : List Value}
    (hFn : fn.Carried R.ok)
    (hArgs : ∀ v ∈ args, v.Within R.ok) :
    Keeps R (Value.Carried R.ok)
      (apply eval depth fn args) := by
  unfold apply
  split
  · exact (logic R).bind (keeps_printValues hStop depth hArgs)
      fun _ _ =>
        (logic R).pure (Value.within_null hSuits.allows).carried
  · exact (logic R).apply hSuits.allows hBody hFn hArgs
      fun _ _ _ f _ => hStop f

/- Evaluation prints only values that it keeps to. -/
omit hBody in
theorem keeps_evaluatePrinting
    (hFits : ∀ e, fits e)
    (depth : Nat)
    {node : Node}
    {scope : ScopeId}
    (hNode : R.code node)
    (hScope : R.inside scope) :
    Keeps R (Value.Carried R.ok)
      (Eval.evaluatePrinting depth node scope) := by
  induction depth generalizing node scope with
  | zero => exact (logic R).lift (.throw hSuits.tooDeep)
  | succ depth ih =>
      have hBody :
          ∀ n s, R.inside s → R.code n →
            Keeps R (Value.Carried R.ok)
              (Eval.evaluatePrinting depth n s) :=
        fun n s hInside hCode => ih hCode hInside
      exact (logic R).stepBy hSuits hNode hScope
        (fun n s hInside hCode =>
          (logic R).mono (hBody n s hInside hCode)
            fun _ h => h.given hSuits hFits node n s)
        fun hFn hArgs =>
          keeps_apply hStop hSuits hBody hFn hArgs

end Printing

/- A property that evaluation may give to everything, return
   marks among it, holds of everything printed. -/
theorem Eval.printed_within
    {ok : Value → Prop}
    {inside : ScopeId → Prop}
    (hOk : Value.Allows ok inside fun _ => True)
    (hMarks : ∀ id v, ok (.returned id v))
    (depth : Nat)
    (node : Node)
    {scope : ScopeId}
    {m : Machine}
    (hScope : inside scope)
    (hHolds : m.Holds ok inside) :
    ∀ v ∈ printed depth node scope m, v.Within ok := by
  have hFits : ∀ e : Event, e.Fits ok :=
    fun _ _ _ _ id v _ _ _ => hMarks id v
  exact (Printing.keeps_evaluatePrinting (fun _ => trivial)
    (Logged.regimeOf_suits hOk) hFits depth trivial hScope m
    hHolds).1

end Monkey
