import Monkey.Parse.Grammar
import Monkey.Proofs.Eval.Checked
import Monkey.Proofs.Eval.MoreLevels

/-
  A gauge for the levels of an evaluation.

  `Gauged` is checked evaluation with a mark that stays once the
  levels have run out anywhere: in a part, in a call, or in the
  written form of a value that is printed, down to the text of
  the body of a function.  The host's failures pass the one place
  where it catches something, so the mark is set just if the
  whole evaluation ends for want of levels.

  Main declarations:
    * `Gauge`
    * `Eval.evaluateGauged`
    * `Eval.evaluateGauged_shows`
    * `levels_unobservable`
-/

namespace Monkey

------------------------------------------------------------
-- Gauged Computations
------------------------------------------------------------

/- A machine, and whether the levels have run out so far. -/
structure Gauge where
  machine : Machine
  exceeded : Bool

/- The machine of an evaluation that is about to begin. -/
def Gauge.start (m : Machine) : Gauge where
  machine := m
  exceeded := false

/- A stop for want of levels. -/
def Stop.isTooDeep : Stop → Bool
  | .failure f => f == .tooDeep
  | .fault _ => false

/- A computation on a machine with a gauge, which can fail or be
   refused something. -/
abbrev Gauged := EStateM Stop Gauge

namespace Gauged

variable {α β : Type}

/- The levels run out. -/
def exceed : Gauged α := do
  modify fun g => { g with exceeded := true }
  throw (.failure .tooDeep)

/- A checked step, which is marked as well if it stops for want
   of levels. -/
def ofChecked (x : Checked α) : Gauged α :=
  fun g =>
    match x g.machine with
    | .ok a m => .ok a { g with machine := m }
    | .error s m =>
        .error s
          { machine := m
            exceeded := g.exceeded || s.isTooDeep }

instance : MonadLift Eval Gauged where
  monadLift x := ofChecked (Checked.lift x)

/- The result of a computation with nothing marked before. -/
def run
    (x : Gauged α)
    (m : Machine) :
    EStateM.Result Stop Gauge α :=
  x (.start m)

/- Whether the levels run out somewhere. -/
def Exceeds
    (x : Gauged α)
    (m : Machine) : Prop :=
  match x.run m with
  | .ok _ g => g.exceeded = true
  | .error _ g => g.exceeded = true

/- A computation without its gauge. -/
def ungauged (x : Gauged α) : Checked α :=
  fun m =>
    match x.run m with
    | .ok a g => .ok a g.machine
    | .error s g => .error s g.machine

end Gauged

------------------------------------------------------------
-- Gauged Evaluation
------------------------------------------------------------

variable [Platform]

/- The source-like text of a node with at most a number of levels
   of recursion. -/
def Node.renderGauged : Nat → Node → Gauged String
  | 0, _ => Gauged.exceed
  | levels + 1, n => n.renderBy (renderGauged levels)

/- The written form of a value nested no more deeply than the
   given number of levels. -/
def Value.inspectGauged : Nat → Value → Gauged String
  | 0, _ => Gauged.exceed
  | depth + 1, v =>
      v.inspectBy (inspectGauged depth)
        (Node.renderGauged depth)

namespace Builtin

/- Run a builtin function on arguments that it may reject. -/
def runGauged
    (depth : Nat)
    (b : Builtin)
    (args : List Value) :
    Gauged Value :=
  match b with
  | .puts => do
      printBy (Value.inspectGauged depth) args
      return .null
  | b => Gauged.ofChecked (b.runChecked depth args)

/- Call a builtin function.  Only a rejection of its arguments
   becomes an error value. -/
def callGauged
    (depth : Nat)
    (b : Builtin)
    (args : List Value) :
    Gauged Value :=
  tryCatch (b.runGauged depth args) fun
    | .fault (.argument e) =>
        Eval.raise (Complaint.argument e).message
    | other => throw other

end Builtin

namespace Eval

/- Apply a function to arguments that it may reject. -/
def applyGauged
    (eval : Node → ScopeId → Gauged Value)
    (depth : Nat)
    (fn : Value)
    (args : List Value) :
    Gauged Value :=
  match fn with
  | .builtin b => b.callGauged depth args
  | fn => apply eval depth fn args

/- Evaluate a node in a scope with at most a number of levels of
   nesting and recursion, and note where they run out. -/
def evaluateGauged : Nat → Node → ScopeId → Gauged Value
  | 0, _, _ => Gauged.exceed
  | depth + 1, .call _ callee args, scope =>
      callBy (evaluateGauged depth)
        (applyGauged (evaluateGauged depth) depth) scope callee
        args
  | depth + 1, node, scope =>
      step (evaluateGauged depth) depth node scope

end Eval

------------------------------------------------------------
-- The Gauge Shows What Happens
------------------------------------------------------------

namespace Gauged

variable {α β : Type}

/- A result with the mark that it should have. -/
def marked :
    EStateM.Result Stop Machine α →
      EStateM.Result Stop Gauge α
  | .ok a m => .ok a { machine := m, exceeded := false }
  | .error s m =>
      .error s { machine := m, exceeded := s.isTooDeep }

/- The same results, with the marks that they should have. -/
def Shows
    (x : Gauged α)
    (y : Checked α) : Prop :=
  ∀ m, x.run m = marked (y m)

omit [Platform] in
theorem shows_ofChecked
    (x : Checked α) :
    Shows (ofChecked x) x := by
  intro m
  unfold run ofChecked marked Gauge.start
  cases x m <;> rfl

/- Any other stop leaves the gauge as it was. -/
omit [Platform] in
theorem shows_throw
    {s : Stop}
    (hStop : s.isTooDeep = false) :
    Shows (throw s : Gauged α) (throw s) := by
  intro m
  change EStateM.Result.error s (Gauge.start m) =
    .error s { machine := m, exceeded := s.isTooDeep }
  rw [hStop]
  rfl

/- Whatever rules are made of shows its levels. -/
def simulation : Eval.Simulation Gauged Checked where
  rel := Shows
  pure _ _ := rfl
  lift x := shows_ofChecked (Checked.lift x)
  bind := by
    intro α β x y f g hFirst hNext m
    change EStateM.bind x f (.start m) =
      marked (EStateM.bind y g m)
    have hRun := hFirst m
    unfold run at hRun
    unfold EStateM.bind
    rw [hRun]
    cases y m with
    | ok a m' => exact hNext a m'
    | error s m' => rfl

/- A handler that lets such stops pass keeps the marks right. -/
omit [Platform] in
theorem Shows.tryCatch
    {x : Gauged α}
    {y : Checked α}
    {handle : Stop → Gauged α}
    {handle' : Stop → Checked α}
    (h : Shows x y)
    (hOther :
      ∀ s, s.isTooDeep = false → Shows (handle s) (handle' s))
    (hDeep :
      ∀ s, s.isTooDeep = true →
        handle s = throw s ∧ handle' s = throw s) :
    Shows (tryCatch x handle) (tryCatch y handle') := by
  intro m
  change EStateM.tryCatch x handle (.start m) =
    marked (EStateM.tryCatch y handle' m)
  have hRun := h m
  unfold run at hRun
  unfold EStateM.tryCatch
  rw [hRun]
  cases y m with
  | ok a m' => rfl
  | error s m' =>
      change handle s ⟨m', s.isTooDeep⟩ = marked (handle' s m')
      by_cases hStop : s.isTooDeep = true
      · rw [(hDeep s hStop).1, (hDeep s hStop).2]
        rfl
      · have hFalse := Bool.eq_false_iff.mpr hStop
        rw [hFalse]
        exact hOther s hFalse m'

end Gauged

namespace Checked

/- Texts, written forms, printed lines, and nodes whose parts
   are refused nothing are refused nothing either. -/
omit [Platform] in
theorem lift_renderBy
    (render : Node → Eval String)
    (n : Node) :
    n.renderBy (fun k => lift (render k)) =
      lift (n.renderBy render) :=
  simulation.renderBy (fun _ => rfl) n

omit [Platform] in
theorem lift_inspectBy
    (write : Value → Eval String)
    (render : Node → Eval String)
    (v : Value) :
    v.inspectBy (fun w => lift (write w))
        (fun n => lift (render n)) =
      lift (v.inspectBy write render) :=
  simulation.inspectBy (fun _ => rfl) (fun _ => rfl) v

theorem lift_printBy
    (write : Value → Eval String)
    (args : List Value) :
    Builtin.printBy (fun v => lift (write v)) args =
      lift (Builtin.printBy write args) :=
  simulation.printBy (fun _ => rfl) args

theorem lift_step
    (eval : Node → ScopeId → Eval Value)
    (depth : Nat)
    (node : Node)
    (scope : ScopeId) :
    Eval.step (fun n s => lift (eval n s)) depth node scope =
      lift (Eval.step eval depth node scope) :=
  simulation.step (fun _ _ => rfl) depth node scope

end Checked

/- Running out of levels is noted in the texts of trees. -/
omit [Platform] in
theorem Node.renderGauged_shows
    (levels : Nat)
    (n : Node) :
    Gauged.Shows (n.renderGauged levels)
      (Checked.lift (Eval.ofExcept (n.renderWithin levels))) := by
  induction levels generalizing n with
  | zero => exact fun _ => rfl
  | succ levels ih =>
      rw [Eval.ofExcept_renderWithin, ← Checked.lift_renderBy]
      exact Gauged.simulation.renderBy ih n

/- Running out of levels is noted in written forms. -/
omit [Platform] in
theorem Value.inspectGauged_shows
    (depth : Nat)
    (v : Value) :
    Gauged.Shows (v.inspectGauged depth)
      (Checked.lift (Eval.ofExcept (v.inspect depth))) := by
  induction depth generalizing v with
  | zero => exact fun _ => rfl
  | succ depth ih =>
      rw [v.ofExcept_inspect, ← Checked.lift_inspectBy]
      exact Gauged.simulation.inspectBy ih
        (Node.renderGauged_shows depth) v

namespace Builtin

/- Running out of levels is noted when values are printed. -/
theorem runGauged_shows
    (depth : Nat)
    (b : Builtin)
    (args : List Value) :
    Gauged.Shows (b.runGauged depth args)
      (b.runChecked depth args) := by
  cases b with
  | puts =>
      unfold runChecked
      refine Gauged.simulation.bind ?_ fun _ =>
        Gauged.simulation.pure _
      change Gauged.Shows _
        (Checked.lift (printValues depth args))
      rw [printValues_eq, ← Checked.lift_printBy]
      exact Gauged.simulation.printBy
        (Value.inspectGauged_shows depth) args
  | _ => exact Gauged.shows_ofChecked _

/- The handler of a call lets levels run out. -/
theorem callGauged_shows
    (depth : Nat)
    (b : Builtin)
    (args : List Value) :
    Gauged.Shows (b.callGauged depth args)
      (Checked.lift (b.call depth args)) := by
  rw [← callChecked_eq]
  refine (runGauged_shows depth b args).tryCatch ?_ ?_
  · intro s hStop
    cases s with
    | failure f => exact Gauged.shows_throw hStop
    | fault f =>
        cases f with
        | argument e => exact Gauged.simulation.lift _
        | _ => exact Gauged.shows_throw hStop
  · intro s hStop
    cases s with
    | failure f => exact ⟨rfl, rfl⟩
    | fault f => cases hStop

end Builtin

namespace Eval

theorem applyGauged_shows
    {f : Node → ScopeId → Gauged Value}
    {g : Node → ScopeId → Checked Value}
    (h : ∀ n scope, Gauged.Shows (f n scope) (g n scope))
    (depth : Nat)
    (fn : Value)
    (args : List Value) :
    Gauged.Shows (applyGauged f depth fn args)
      (apply g depth fn args) := by
  unfold applyGauged
  split
  · exact Builtin.callGauged_shows depth _ args
  · exact Gauged.simulation.apply h depth _ args

/- The gauge of an evaluation has the mark that it should have,
   and changes nothing else. -/
theorem evaluateGauged_shows
    (depth : Nat)
    (node : Node)
    (scope : ScopeId) :
    Gauged.Shows (evaluateGauged depth node scope)
      (Checked.lift (evaluateWithin depth node scope)) := by
  induction depth generalizing node scope with
  | zero => exact fun _ => rfl
  | succ depth ih =>
      unfold evaluateWithin
      rw [← Checked.lift_step]
      cases node with
      | call _ callee args =>
          exact Gauged.simulation.callBy ih
            (applyGauged_shows ih depth) scope callee args
      | _ => exact Gauged.simulation.step ih depth _ scope

end Eval

------------------------------------------------------------
-- Levels Cannot Be Observed
------------------------------------------------------------

/-
  An evaluation that does not end for want of levels has the same
  result with more of them: the same value or failure, the same
  printed text, and the same bindings.  Where the levels run out
  anywhere, and only there, it ends for want of them.
-/
theorem levels_unobservable
    (node : Node)
    (scope : ScopeId)
    (m : Machine)
    (limit limit' : Nat)
    (hLe : limit ≤ limit') :
    ((∀ m', Eval.evaluateWithin limit node scope m ≠
        .error .tooDeep m') →
      Eval.evaluateWithin limit' node scope m =
        Eval.evaluateWithin limit node scope m) ∧
    (Eval.evaluateGauged limit node scope).ungauged m =
      Checked.lift (Eval.evaluateWithin limit node scope) m ∧
    ((Eval.evaluateGauged limit node scope).Exceeds m ↔
      ∃ m', Eval.evaluateWithin limit node scope m =
        .error .tooDeep m') := by
  have hShows := Eval.evaluateGauged_shows limit node scope m
  refine ⟨Eval.evaluateWithin_eq_of_le hLe, ?_, ?_⟩
  · unfold Gauged.ungauged
    rw [hShows]
    cases Checked.lift _ m with
    | ok v m' => rfl
    | error s m' => rfl
  · unfold Gauged.Exceeds
    rw [hShows]
    unfold Checked.lift Gauged.marked
    cases Eval.evaluateWithin limit node scope m with
    | ok v m' => simp
    | error f m' => simp [Stop.isTooDeep]

/- Nine levels are enough to print the function, so that all 4500
   print it as well.  Eight are enough for everything but the
   text of its body. -/
omit [Platform] in
theorem levels_unobservable_puts :
    letI := Platform.usual
    ∃ node,
      parseWithin 9 "let a = [fn(x) \x7b -x \x7d]; puts(a)" =
          .ok node ∧
        (∃ m', evaluate node Machine.root .new = .ok .null m' ∧
          m'.output = "[fn(x) \x7b\n(-x)\n\x7d]\n") ∧
        (Eval.evaluateGauged 8 node Machine.root).Exceeds
          .new := by
  let := Platform.usual
  obtain ⟨node, hNode⟩ :
      ∃ p,
        parseWithin 9
            "let a = [fn(x) \x7b -x \x7d]; puts(a)" =
          .ok p :=
    ⟨_, rfl⟩
  obtain ⟨m', hRun, hOutput⟩ :
      ∃ m', Eval.evaluateWithin 9 node Machine.root .new =
          .ok .null m' ∧
        m'.output = "[fn(x) \x7b\n(-x)\n\x7d]\n" := by
    cases hNode
    exact ⟨_, rfl, rfl⟩
  have hFew :
      ∃ m', Eval.evaluateWithin 8 node Machine.root .new =
        .error .tooDeep m' := by
    cases hNode
    exact ⟨_, rfl⟩
  have hEnough :
      ∀ m'', Eval.evaluateWithin 9 node Machine.root .new ≠
        .error .tooDeep m'' := by
    rw [hRun]
    exact nofun
  have hMore :=
    (levels_unobservable node Machine.root .new 9
      Platform.recursionLimit (by decide)).1 hEnough
  have hExceeds :=
    (levels_unobservable node Machine.root .new 8 9
      (by decide)).2.2.mpr hFew
  exact ⟨node, hNode, ⟨m', hMore.trans hRun, hOutput⟩, hExceeds⟩

end Monkey
