import Mathlib.Logic.Equiv.Basic
import Monkey.Parse.Grammar
import Monkey.Proofs.Eval.Moving
import Monkey.Proofs.Eval.Printed
import Monkey.Proofs.Eval.Watched

/-
  Evaluation under other names.

  A program in which all names are replaced consistently, on a
  machine in which they are replaced as well, does what it did
  before.  Its result is the same but for the names in functions
  and in new errors about names that are not found, and so is
  what it prints, if it prints no functions.

  An evaluation under other names is one that has been moved to
  where nothing comes before.

  Main declarations:
    * `Machine.renamed`
    * `Value.renamedSince`
    * `renamedResult`
    * `renaming_preserves_behaviour`
-/

namespace Monkey

------------------------------------------------------------
-- Other Names on a Machine
------------------------------------------------------------

/- Other names, wherever they are in values. -/
def Renaming.translation (r : Renaming) : Translation where
  identity := id
  message _ text := text
  name := r.apply
  identifier := r.identifier
  body := Node.renamed r
  scope := id

/- A value with other names in its functions. -/
def Value.renamed
    (r : Renaming)
    (v : Value) :
    Value :=
  v.translate r.translation

/- A machine with other names in its scopes. -/
def Machine.renamed
    (r : Renaming)
    (m : Machine) :
    Machine :=
  { m with
    scopes := m.scopes.map (Scope.translate r.translation) }

/- A value with other names, and if it is an error that is not
   old, with a message about another name. -/
def Value.renamedSince
    (r : Renaming)
    (old : Identity) :
    Value → Value
  | .error id text =>
      .error id (if id < old then text else r.message text)
  | v => v.renamed r

/- A result with other names, after some text has been
   printed. -/
def renamedResult
    (r : Renaming)
    (old : Identity)
    (output : String) :
    EStateM.Result Failure Machine Value →
      EStateM.Result Failure Machine Value
  | .ok v m =>
      .ok (v.renamedSince r old)
        { m.renamed r with output := output }
  | .error f m => .error f { m.renamed r with output := output }

------------------------------------------------------------
-- Old Errors
------------------------------------------------------------

/- A value that is an error only if it is an old one. -/
def Value.IsOld (old : Identity) : Value → Prop
  | .error id _ => id < old
  | _ => True

/- Every error on a machine has got its identity from it. -/
def Machine.ErrorsOld (m : Machine) : Prop :=
  ∀ id, ∀ entry ∈ m.bindings id,
    entry.2.Within (Value.IsOld m.nextIdentity)

theorem Value.allows_isOld
    (old : Identity) :
    Allows (IsOld old) (fun _ => True) fun _ => True where
  int _ := trivial
  bool _ := trivial
  null := trivial
  str _ := trivial
  builtin _ := trivial
  array _ _ := trivial
  hash _ _ := trivial
  function _ _ _ _ :=
    ⟨fun _ => ⟨trivial, trivial⟩, fun _ => trivial⟩

theorem Machine.ErrorsOld.holds
    {m : Machine}
    (h : m.ErrorsOld) :
    m.Holds (Value.IsOld m.nextIdentity) fun _ => True where
  values id _ := h id
  outer _ _ _ _ _ _ := trivial
  fresh _ _ := trivial

/- An error that an evaluation makes is not stored, so that only
   old ones are on its machine and inside its value. -/
theorem Machine.ErrorsOld.final
    [Platform]
    {m : Machine}
    (h : m.ErrorsOld)
    (depth : Nat)
    (node : Node)
    (scope : ScopeId) :
    (Logged.machineOf
        (Eval.evaluateWithin depth node scope m)).Holds
      (Value.IsOld m.nextIdentity) (fun _ => True) ∧
    ∀ v after,
      Eval.evaluateWithin depth node scope m = .ok v after →
        v.Storable (Value.IsOld m.nextIdentity) := by
  have hKept :=
    Eval.sights_kept_of_allows
      (Value.allows_isOld m.nextIdentity) (fun _ _ => trivial)
      depth node trivial h.holds _
      (Eval.final_mem_sights depth node scope m)
  cases hResult : Eval.evaluateWithin depth node scope m with
  | ok v after =>
      rw [hResult] at hKept
      refine ⟨hKept.machine, ?_⟩
      rintro _ _ ⟨⟩
      exact hKept.storable (fun _ _ => trivial) v rfl
  | error f after =>
      rw [hResult] at hKept
      exact ⟨hKept.machine, nofun⟩

------------------------------------------------------------
-- Moves That Stay in Place
------------------------------------------------------------

/- Other names, and nothing that comes before. -/
def Move.inPlace
    (r : Renaming)
    (old : Identity) :
    Move where
  names := r
  base := #[]
  given := 0
  old := old

section

variable (r : Renaming)

theorem Move.translation_inPlace
    (old : Identity) :
    { (inPlace r old).translation with
      message := fun _ text => text } = r.translation := by
  have hIdentity :
      (fun id => (inPlace r old).given + id) = id :=
    funext Nat.zero_add
  have hScope :
      (fun id => (inPlace r old).base.size + id) = id :=
    funext Nat.zero_add
  unfold translation Renaming.translation
  rw [hIdentity, hScope]
  rfl

variable {old : Identity}

theorem Value.translate_inPlace
    {v : Value}
    (h : v.Within (IsOld old)) :
    v.translate (Move.inPlace r old).translation =
      v.renamed r := by
  unfold renamed
  rw [← Move.translation_inPlace r old]
  refine translate_message v (h.mono fun x hOld => ?_)
  cases x with
  | error id text => exact if_pos hOld
  | _ => trivial

/- A new error can only be all of a value. -/
theorem Value.translate_inPlace_storable
    {v : Value}
    (h : v.Storable (IsOld old)) :
    v.translate (Move.inPlace r old).translation =
      v.renamedSince r old := by
  cases v with
  | error id text =>
      exact congrArg (fun same => error same _) (Nat.zero_add id)
  | _ =>
      exact translate_inPlace r (h.resolve_left Bool.noConfusion)

theorem Scope.translate_inPlace
    {scope : Scope}
    (h :
      ∀ entry ∈ scope.bindings,
        entry.2.Within (Value.IsOld old)) :
    scope.translate (Move.inPlace r old).translation =
      scope.translate r.translation := by
  have hOuter :
      (Move.inPlace r old).translation.scope =
        r.translation.scope :=
    funext Nat.zero_add
  unfold translate
  rw [hOuter]
  refine congrArg _ (List.map_congr_left fun entry hEntry => ?_)
  rw [Value.translate_inPlace r (h entry hEntry)]
  rfl

theorem Move.machine_inPlace
    {m : Machine}
    (h : m.Holds (Value.IsOld old) fun _ => True)
    (output : String) :
    (inPlace r old).machine m output =
      { m.renamed r with output := output } := by
  have hScopes :
      m.scopes.map
          (Scope.translate (inPlace r old).translation) =
        m.scopes.map (Scope.translate r.translation) := by
    refine Array.ext_getElem? fun id => ?_
    rw [Array.getElem?_map, Array.getElem?_map]
    cases hScope : m.scopes[id]? with
    | none => rfl
    | some scope =>
        have hValues := h.values id trivial
        rw [Machine.bindings_eq hScope] at hValues
        exact congrArg some (scope.translate_inPlace r hValues)
  have hIdentity :
      (inPlace r old).given + m.nextIdentity =
        m.nextIdentity :=
    Nat.zero_add _
  have hBase : (inPlace r old).base = #[] := rfl
  unfold machine Scopes.behind
  rw [hScopes, hIdentity, hBase, Array.empty_append]
  rfl

/- Any machine can stay in place. -/
theorem Move.fits_inPlace
    {m : Machine}
    (hOld : old ≤ m.nextIdentity) :
    (inPlace r old).Fits m.scopes.size m where
  size := rfl
  old := hOld
  ordered hBase := absurd hBase (Nat.lt_irrefl 0)
  bound :=
    { values := fun _ _ _ _ _ _ _ _ _ _ _ hBase =>
        absurd hBase (Nat.lt_irrefl 0)
      outer := fun _ _ _ _ _ _ => trivial
      fresh := fun _ _ => trivial }

end

------------------------------------------------------------
-- What Is Printed under Other Names
------------------------------------------------------------

namespace Printing

variable (mv : Move)

/-
  Evaluations side by side, one of which has a record of what it
  prints.  As long as that looks the same elsewhere, so does the
  text.
-/
def lookingSame :
    Likeness.Logic (moving mv True) Printing Eval where
  rel w good x y :=
    ∀ later, w ≤ later → ∀ m m',
      (moving mv True).machines later m m' →
        (∀ v ∈ (x m).1,
          v.Within (Value.LooksSame mv.translation)) →
          (moving mv True).Lands later good (x m).2 (y m')
  pure h later hLater m m' hMachines _ :=
    Likeness.Relates.pure h later hLater m m' hMachines
  bind := by
    intro α β γ δ w good good' x y f g h hNext later hLater m m'
      hMachines hSame
    have hFirst :=
      h later hLater m m' hMachines fun v hMem =>
        hSame v (mem_bind_left hMem)
    have hErased :
        (x >>= f).result = x.result >>= fun a => (f a).result :=
      erasure.bind rfl fun _ => rfl
    change (moving mv True).Lands later good'
      ((x >>= f).result m) _
    rw [hErased]
    refine Likeness.Lands.bind (x := x.result) hFirst
      fun more hMore a b m₁ m₁' hResult hMachines hGood => ?_
    exact hNext more (hLater.trans hMore) a b hGood more
      (le_refl more) m₁ m₁' hMachines fun v hMem =>
        hSame v (mem_bind_right hResult hMem)
  lift h later hLater m m' hMachines _ :=
    h later hLater m m' hMachines

variable {mv}
variable {count : Nat}

/- A value that looks the same is printed in the same way. -/
theorem lookingSame_print
    {v : Value}
    {text text' : String}
    (hText :
      v.Within (Value.LooksSame mv.translation) →
        text' = text) :
    (lookingSame mv).rel count Likeness.Unknown (print v text)
      (Eval.printLine text') := by
  intro later hLater m m' hMachines hSame
  have hLine :
      (moving mv True).Relates count Likeness.Unknown
        (Eval.printLine text) (Eval.printLine text') :=
    moving_printLine fun _ =>
      hText (hSame v (List.mem_singleton_self v))
  exact hLine later hLater m m' hMachines

theorem lookingSame_printValues
    [Platform]
    (depth : Nat)
    {vs vs' : List Value}
    (hValues :
      List.Forall₂ ((moving mv True).values count) vs vs') :
    (lookingSame mv).rel count Likeness.Unknown
      (printValues depth vs)
      (Builtin.printValues depth vs') := by
  induction vs generalizing count vs' with
  | nil =>
      cases hValues
      exact (lookingSame mv).pure fun _ _ => trivial
  | cons v others ih =>
      cases hValues with
      | cons hFirst hOthers =>
          rcases hFirst with ⟨-, rfl⟩
          unfold printValues Builtin.printValues
          refine (lookingSame mv).bind
            ((lookingSame mv).lift (moving_ofExcept
              (Value.lineFor_translate_like depth fun x _ =>
                looksAlike_moved x)))
            fun more hMore text text' hText => ?_
          refine (lookingSame mv).bind (lookingSame_print hText)
            fun most hMost _ _ _ => ?_
          exact ih ((moving_respected mv True).forall₂_mono
            (hMore.trans hMost) hOthers)

variable {eval : Node → ScopeId → Printing Value}
variable {eval' : Node → ScopeId → Eval Value}

theorem lookingSame_apply
    [Platform]
    (hEval : (lookingSame mv).Evaluators eval eval')
    (depth : Nat) :
    (lookingSame mv).Appliers (apply eval depth)
      (Eval.apply (M := Eval) eval' depth) := by
  have hRespected := moving_respected mv True
  intro w fn fn' args args' hFn hArgs
  unfold apply
  split
  · rcases hFn with ⟨-, rfl⟩
    change (lookingSame mv).rel w _ _
      (Eval.apply eval' depth (.builtin .puts) args')
    rw [Eval.apply_puts]
    exact (lookingSame mv).bind
      (lookingSame_printValues depth hArgs)
      fun _ _ _ _ _ =>
        (lookingSame mv).purePlain hRespected rfl
  · next hOther =>
      refine (lookingSame mv).apply hRespected hEval depth hFn
        hArgs fun b hBuiltin => ?_
      refine (lookingSame mv).lift
        (hRespected.call depth b hArgs fun hPuts => ?_)
      exact absurd (hPuts ▸ hBuiltin) hOther

/- Evaluation prints the same elsewhere as long as that looks the
   same. -/
theorem lookingSame_evaluatePrinting
    [Platform]
    (depth : Nat) :
    (lookingSame mv).Evaluators (Eval.evaluatePrinting depth)
      (Eval.evaluateWithin depth) := by
  have hRespected := moving_respected mv True
  induction depth with
  | zero =>
      exact fun _ _ _ _ _ _ _ =>
        (lookingSame mv).lift (.throw _)
  | succ depth ih =>
      intro w n n' s s' hNode hScope
      unfold Eval.evaluateWithin Eval.evaluatePrinting
      rw [Eval.step_eq_stepBy]
      exact (lookingSame mv).stepBy hRespected ih hScope
        (lookingSame_apply ih depth) depth hNode

end Printing

------------------------------------------------------------
-- Evaluation
------------------------------------------------------------

/- A value that is no function and has none inside. -/
def Value.FunctionFree (v : Value) : Prop :=
  v.Within fun x => x.type ≠ .function

section

variable (r : Renaming)
variable {old : Identity}

/- Other names show in functions and in new errors only. -/
theorem Value.looksSame_inPlace
    {x : Value}
    (hOld : x.IsOld old)
    (hOther : x.type ≠ .function) :
    x.LooksSame (Move.inPlace r old).translation := by
  cases x with
  | function => exact absurd rfl hOther
  | error id text => exact if_pos hOld
  | _ => trivial

/- A scope in place is the same one. -/
theorem moving_scope
    {tracked : Prop}
    {count : Nat}
    (scope : ScopeId) :
    (moving (Move.inPlace r old) tracked).scopes count scope
      scope :=
  ⟨fun hBase => absurd hBase (Nat.lt_irrefl 0),
    (Nat.zero_add scope).symm⟩

/- A result that has been moved in place is the same one with
   other names. -/
theorem eq_renamedResult
    {tracked : Prop}
    {count : Nat}
    {result result' : EStateM.Result Failure Machine Value}
    (hLands :
      (moving (Move.inPlace r old) tracked).Lands count
        (moving (Move.inPlace r old) tracked).values result
        result')
    (hMachine :
      (Logged.machineOf result).Holds (Value.IsOld old)
        fun _ => True)
    (hValue :
      ∀ v after, result = .ok v after →
        v.Storable (Value.IsOld old)) :
    ∃ output,
      result' = renamedResult r old output result ∧
        (tracked →
          output = (Logged.machineOf result).output) := by
  cases result with
  | ok v after =>
      cases result' with
      | error f' after' => exact hLands.elim
      | ok v' after' =>
          rcases hLands with
            ⟨_, -, ⟨-, output, rfl, hOutput⟩, -, rfl⟩
          refine ⟨output, ?_, hOutput⟩
          have hAfter := Move.machine_inPlace r hMachine output
          have hSame :=
            v.translate_inPlace_storable r (hValue v after rfl)
          exact congrArg₂ EStateM.Result.ok hSame hAfter
  | error f after =>
      cases result' with
      | ok v' after' => exact hLands.elim
      | error f' after' =>
          rcases hLands with
            ⟨rfl, _, -, -, output, rfl, hOutput⟩
          refine ⟨output, ?_, hOutput⟩
          have hAfter := Move.machine_inPlace r hMachine output
          exact congrArg (EStateM.Result.error f) hAfter

variable {m : Machine}
variable (hOld : m.ErrorsOld)

include hOld

theorem Machine.ErrorsOld.moving_start
    {tracked : Prop} :
    (moving (Move.inPlace r m.nextIdentity) tracked).machines
      m.scopes.size m (m.renamed r) :=
  ⟨Move.fits_inPlace r (Nat.le_refl _), m.output,
    (Move.machine_inPlace r hOld.holds m.output).symm,
    fun _ => rfl⟩

variable (depth : Nat)
variable (node : Node)
variable (scope : ScopeId)

theorem Machine.ErrorsOld.lands_renamed
    [Platform] :
    (moving (Move.inPlace r m.nextIdentity) False).Lands
      m.scopes.size
      (moving (Move.inPlace r m.nextIdentity) False).values
      (Eval.evaluateWithin depth node scope m)
      (Eval.evaluateWithin depth (node.renamed r) scope
        (m.renamed r)) := by
  have hEval :
      (moving (Move.inPlace r m.nextIdentity)
          False).plainLogic.Evaluators
        (Eval.evaluateWithin depth)
        (Eval.evaluateWithin depth) :=
    (moving_respected _ False).evaluateWithin
      (moving_prints False.elim) depth
  exact hEval m.scopes.size node (node.renamed r) scope scope
    rfl (moving_scope r scope) m.scopes.size (Nat.le_refl _) m
    (m.renamed r) (hOld.moving_start r)

/- No old error and no function among what is printed looks other
   than before. -/
theorem Machine.ErrorsOld.lands_renamed_printing
    [Platform]
    (hPrinted :
      ∀ v ∈ Eval.printed depth node scope m,
        v.FunctionFree) :
    (moving (Move.inPlace r m.nextIdentity) True).Lands
      m.scopes.size
      (moving (Move.inPlace r m.nextIdentity) True).values
      (Eval.evaluateWithin depth node scope m)
      (Eval.evaluateWithin depth (node.renamed r) scope
        (m.renamed r)) := by
  have hWritten :
      ∀ v ∈ Eval.printed depth node scope m,
        v.Within (Value.IsOld m.nextIdentity) :=
    Eval.printed_within (Value.allows_isOld m.nextIdentity)
      (fun _ _ => trivial) depth node trivial hOld.holds
  have hResult :
      (Eval.evaluatePrinting depth node scope m).2 =
        Eval.evaluateWithin depth node scope m :=
    congrFun (Eval.evaluatePrinting_result depth node scope) m
  rw [← hResult]
  have hEval :
      (Printing.lookingSame
          (Move.inPlace r m.nextIdentity)).Evaluators
        (Eval.evaluatePrinting depth)
        (Eval.evaluateWithin depth) :=
    Printing.lookingSame_evaluatePrinting depth
  exact hEval m.scopes.size node (node.renamed r) scope scope
    rfl (moving_scope r scope) m.scopes.size (Nat.le_refl _) m
    (m.renamed r) (hOld.moving_start r)
    fun v hMem x hInside =>
      x.looksSame_inPlace r (hWritten v hMem x hInside)
        (hPrinted v hMem x hInside)

end

/-
  Evaluation of any node in any scope, where all names have been
  replaced consistently in the node and on the machine, ends like
  the evaluation without that: in the same failure, or in the
  same value but for other names in functions and in the message
  of a new error, and with the same bindings of other names.  The
  text printed is the same if no function is printed.
-/
theorem renaming_preserves_behaviour
    [Platform]
    (r : Renaming)
    (depth : Nat)
    (node : Node)
    (scope : ScopeId)
    (m : Machine)
    (hOld : m.ErrorsOld) :
    ∃ output,
      Eval.evaluateWithin depth (node.renamed r) scope
          (m.renamed r) =
        renamedResult r m.nextIdentity output
          (Eval.evaluateWithin depth node scope m) ∧
      ((∀ v ∈ Eval.printed depth node scope m,
          v.FunctionFree) →
        output =
          (Logged.machineOf
            (Eval.evaluateWithin depth node scope m)).output)
    := by
  rcases hOld.final depth node scope with ⟨hMachine, hValue⟩
  by_cases hPrinted :
      ∀ v ∈ Eval.printed depth node scope m, v.FunctionFree
  · rcases eq_renamedResult r
        (hOld.lands_renamed_printing r depth node scope hPrinted)
        hMachine hValue with
      ⟨output, hResult, hOutput⟩
    exact ⟨output, hResult, fun _ => hOutput trivial⟩
  · rcases eq_renamedResult r
        (hOld.lands_renamed r depth node scope) hMachine
        hValue with
      ⟨output, hResult, -⟩
    exact ⟨output, hResult, fun hAll => absurd hAll hPrinted⟩

/- There are no names on a new machine. -/
theorem Machine.renamed_new
    (r : Renaming) :
    new.renamed r = new := by
  have hScopes :
      new.scopes.map (Scope.translate r.translation) =
        new.scopes :=
    Array.map_singleton
  unfold renamed
  rw [hScopes]

/- Two names in each other's place. -/
def Renaming.exchange
    (a b : String)
    (hFirst : IsName a)
    (hSecond : IsName b)
    (hOther : ∀ f : Builtin, f.name ≠ a ∧ f.name ≠ b) :
    Renaming where
  name := Equiv.swap a b
  isName x hName := by
    rw [Equiv.swap_apply_def]
    split
    · exact hSecond
    · split
      · exact hFirst
      · exact hName
  injective _ _ _ _ h := (Equiv.swap a b).injective h
  builtin f :=
    Equiv.swap_apply_of_ne_of_ne (hOther f).1 (hOther f).2

/- A parameter and a name that is not bound change places. -/
theorem renaming_preserves_behaviour_exchange :
    letI := Platform.usual
    ∃ r p id after,
      parseWithin 20
          "let f = fn(x) \x7b puts(x); x + y \x7d; f(true)" =
        .ok p ∧
      (p.renamed r).renderWithin 20 =
        .ok "let f = fn(y) puts(y)(y + x);f(true)" ∧
      Machine.new.ErrorsOld ∧
      Eval.evaluateWithin 20 (p.renamed r) Machine.root .new =
        .ok (.error id "identifier not found: x") after ∧
      after.output = "true\n" := by
  let := Platform.usual
  obtain ⟨r, hRenaming⟩ :
      ∃ r,
        r =
          Renaming.exchange "x" "y" (by decide) (by decide)
            (by intro f; cases f <;> decide) :=
    ⟨_, rfl⟩
  obtain ⟨p, hParse⟩ :
      ∃ p,
        parseWithin 20
            "let f = fn(x) \x7b puts(x); x + y \x7d; f(true)" =
          .ok p :=
    ⟨_, rfl⟩
  have hRender :
      (p.renamed r).renderWithin 20 =
        .ok "let f = fn(y) puts(y)(y + x);f(true)" := by
    cases hParse
    cases hRenaming
    decide +kernel
  have hOld : Machine.new.ErrorsOld :=
    fun id => Machine.holds_new.values id trivial
  obtain ⟨output, hSame, hOutput⟩ :=
    renaming_preserves_behaviour r 20 p Machine.root .new hOld
  obtain ⟨id, after, hEval, hPrinted, hText⟩ :
      ∃ id after,
        Eval.evaluateWithin 20 p Machine.root .new =
          .ok (.error id "identifier not found: y") after ∧
        Eval.printed 20 p Machine.root .new = [.bool true] ∧
        after.output = "true\n" := by
    cases hParse
    exact ⟨_, _, rfl, rfl, rfl⟩
  have hPrintedSame : output = "true\n" := by
    rw [hPrinted, hEval] at hOutput
    refine (hOutput fun v hMem => ?_).trans hText
    rw [List.mem_singleton.mp hMem]
    exact Value.IsFlat.within trivial nofun
  have hMessage :
      r.message "identifier not found: y" =
        "identifier not found: x" := by
    cases hRenaming
    decide +kernel
  have hError :
      (Value.error id
          "identifier not found: y").renamedSince r 0 =
        .error id "identifier not found: x" := by
    rw [← hMessage]
    exact congrArg (Value.error id)
      (if_neg (Nat.not_lt_zero id))
  rw [hEval, Machine.renamed_new] at hSame
  exact
    ⟨r, p, id, { after.renamed r with output := output },
      hParse, hRender, hOld,
      hSame.trans
        (congrArg (fun v => EStateM.Result.ok v _) hError),
      hPrintedSame⟩

end Monkey
