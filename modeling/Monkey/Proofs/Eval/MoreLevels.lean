import Monkey.Proofs.Eval.Simulation

/-
  The limit on levels stops an evaluation or leaves it alone.

  The levels that are left bound how deeply parts are nested,
  how deeply calls recurse, and how deeply nested the values are
  that `puts` can print, with the trees of functions among them.
  A computation is below another one if
  it does the same wherever it does not run out of levels.  Every
  rule keeps this order, so a higher limit changes no result but
  `tooDeep`.

  Main declarations:
    * `Value.inspectBy`
    * `Eval.callBy`
    * `Eval.stepBy`
    * `Eval.below`
    * `Eval.evaluateWithin_eq_of_le`
-/

namespace Monkey

variable {M N : Type → Type}
variable [Monad M] [MonadLiftT Eval M]
variable [Monad N] [MonadLiftT Eval N]

------------------------------------------------------------
-- Written Forms
------------------------------------------------------------

/- The written form of a value whose parts are written by
   `write`, and the bodies of functions by `render`. -/
def Value.inspectBy
    (write : Value → M String)
    (render : Node → M String)
    (v : Value) :
    M String :=
  match v with
  | .returned _ inner => write inner
  | .function _ params body _ => do
      return inspectFunction params (← render body)
  | .array _ elements => do
      let parts ← elements.mapM write
      return enclose "[" "]" parts
  | .hash _ entries => do
      let parts ← entries.mapM fun e => do
        let key ← write e.2.key
        let value ← write e.2.value
        return key ++ ": " ++ value
      return enclose "\x7b" "\x7d" parts
  | v => Eval.ofExcept (v.inspect 1)

/- Print values that are written by `write`, each on its own
   line. -/
def Builtin.printBy
    [Platform]
    (write : Value → M String) :
    List Value → M Unit
  | [] => pure ()
  | v :: others => do
      let text ← write v
      let line ← Eval.ofExcept (asLine text)
      Eval.printLine line
      printBy write others

namespace Eval

variable {α β : Type}

theorem ofExcept_bind
    (x : Except Failure α)
    (f : α → Except Failure β) :
    ofExcept (x >>= f) =
      ofExcept x >>= fun a => ofExcept (f a) := by
  cases x <;> rfl

theorem ofExcept_mapM
    (f : α → Except Failure β)
    (xs : List α) :
    ofExcept (xs.mapM f) = xs.mapM fun x => ofExcept (f x) := by
  induction xs with
  | nil => rfl
  | cons x xs ih =>
      rw [List.mapM_cons, List.mapM_cons, ofExcept_bind]
      refine congrArg _ (funext fun b => ?_)
      rw [ofExcept_bind, ih]
      rfl

/- The parts of a tree are rendered with one level less. -/
theorem ofExcept_renderWithin
    (levels : Nat)
    (n : Node) :
    ofExcept (n.renderWithin (levels + 1)) =
      n.renderBy fun k => ofExcept (k.renderWithin levels) := by
  change ofExcept (n.renderBy (Node.renderWithin levels)) = _
  cases n with
  | ifElse _ _ _ alternative =>
      cases alternative <;>
        simp only [Node.renderBy, ofExcept_bind] <;> rfl
  | returnStmt _ value =>
      cases value with
      | none => rfl
      | some value =>
          simp only [Node.renderBy, ofExcept_bind]
          rfl
  | hash _ pairs =>
      simp only [Node.renderBy, Node.renderPair, ofExcept_bind,
        ofExcept_mapM]
      rfl
  | identifier | integer | boolean | string | exprStmt
    | foreign => rfl
  | _ =>
      simp only [Node.renderBy, ofExcept_bind, ofExcept_mapM]
      rfl

end Eval

/- The parts of a value are written with one level less. -/
theorem Value.ofExcept_inspect
    (depth : Nat)
    (v : Value) :
    Eval.ofExcept (v.inspect (depth + 1)) =
      v.inspectBy (fun w => Eval.ofExcept (w.inspect depth))
        fun n => Eval.ofExcept (n.renderWithin depth) := by
  cases v with
  | function id params body scope =>
      change Eval.ofExcept (body.renderWithin depth >>= _) = _
      rw [Eval.ofExcept_bind]
      rfl
  | array id elements =>
      change Eval.ofExcept (elements.mapM _ >>= _) = _
      rw [Eval.ofExcept_bind, Eval.ofExcept_mapM]
      rfl
  | hash id entries =>
      change Eval.ofExcept (entries.mapM _ >>= _) = _
      rw [Eval.ofExcept_bind, Eval.ofExcept_mapM]
      simp only [Eval.ofExcept_bind]
      rfl
  | _ => rfl

theorem Builtin.printValues_eq
    [Platform]
    (depth : Nat)
    (args : List Value) :
    printValues depth args =
      printBy (fun v => Eval.ofExcept (v.inspect depth))
        args := by
  induction args with
  | nil => rfl
  | cons v others ih =>
      unfold printValues printBy lineFor
      rw [ih, Eval.ofExcept_bind, bind_assoc]
      rfl

------------------------------------------------------------
-- Calls
------------------------------------------------------------

namespace Eval

/- Evaluate a callee and its arguments, and go on with both as
   `apply` says. -/
def callBy
    (eval : Node → ScopeId → M Value)
    (apply : Value → List Value → M Value)
    (scope : ScopeId)
    (callee : Node)
    (args : List Node) :
    M Value := do
  let fn ← eval callee scope
  unlessError fn do
    match (← expressions eval scope args) with
    | .ok vs => apply fn vs
    | .error stop => return stop

/- Evaluate a node whose parts are evaluated by `eval` and whose
   values are applied by `apply`. -/
def stepBy
    [Platform]
    (eval : Node → ScopeId → M Value)
    (apply : Value → List Value → M Value)
    (depth : Nat)
    (node : Node)
    (scope : ScopeId) :
    M Value :=
  match node with
  | .call _ callee args => callBy eval apply scope callee args
  | node => step eval depth node scope

theorem step_eq_stepBy
    [Platform]
    (eval : Node → ScopeId → M Value)
    (depth : Nat)
    (node : Node)
    (scope : ScopeId) :
    step eval depth node scope =
      stepBy eval (apply eval depth) depth node scope := by
  cases node <;> rfl

namespace Simulation

variable (S : Simulation M N)

theorem mapM
    [LawfulMonad M]
    [LawfulMonad N]
    {α β : Type}
    {f : α → M β}
    {g : α → N β}
    (h : ∀ x, S.rel (f x) (g x))
    (xs : List α) :
    S.rel (xs.mapM f) (xs.mapM g) := by
  induction xs with
  | nil => exact S.pure _
  | cons x xs ih =>
      rw [List.mapM_cons, List.mapM_cons]
      exact S.bind (h x) fun _ => S.bind ih fun _ => S.pure _

/- Trees are rendered alike if their parts are. -/
theorem renderBy
    [LawfulMonad M]
    [LawfulMonad N]
    {render : Node → M String}
    {render' : Node → N String}
    (h : ∀ n, S.rel (render n) (render' n))
    (n : Node) :
    S.rel (n.renderBy render) (n.renderBy render') := by
  cases n with
  | prefixOp _ operator right =>
      exact S.bind (h right) fun _ => S.pure _
  | infixOp _ left operator right =>
      exact S.bind (h left) fun _ =>
        S.bind (h right) fun _ => S.pure _
  | ifElse _ condition consequence alternative =>
      cases alternative with
      | none =>
          exact S.bind (h condition) fun _ =>
            S.bind (h consequence) fun _ => S.pure _
      | some alternative =>
          exact S.bind (h condition) fun _ =>
            S.bind (h consequence) fun _ =>
              S.bind (h alternative) fun _ => S.pure _
  | function _ params body =>
      exact S.bind (h body) fun _ => S.pure _
  | call _ callee args =>
      exact S.bind (h callee) fun _ =>
        S.bind (S.mapM h args) fun _ => S.pure _
  | array _ elements =>
      exact S.bind (S.mapM h elements) fun _ => S.pure _
  | index _ left subscript =>
      exact S.bind (h left) fun _ =>
        S.bind (h subscript) fun _ => S.pure _
  | hash _ pairs =>
      have hPair :
          ∀ p, S.rel (Node.renderPair render p)
            (Node.renderPair render' p) :=
        fun p => S.bind (h p.1) fun _ =>
          S.bind (h p.2) fun _ => S.pure _
      exact S.bind (S.mapM hPair pairs) fun _ => S.pure _
  | letStmt _ name value =>
      exact S.bind (h value) fun _ => S.pure _
  | returnStmt _ value =>
      cases value with
      | none => exact S.pure _
      | some value => exact S.bind (h value) fun _ => S.pure _
  | exprStmt _ expression => exact h expression
  | block _ statements =>
      exact S.bind (S.mapM h statements) fun _ => S.pure _
  | program statements =>
      exact S.bind (S.mapM h statements) fun _ => S.pure _
  | identifier | integer | boolean | string | foreign =>
      exact S.pure _

/- Values are written alike if their parts are. -/
theorem inspectBy
    [LawfulMonad M]
    [LawfulMonad N]
    {write : Value → M String}
    {write' : Value → N String}
    {render : Node → M String}
    {render' : Node → N String}
    (h : ∀ v, S.rel (write v) (write' v))
    (hBody : ∀ n, S.rel (render n) (render' n))
    (v : Value) :
    S.rel (v.inspectBy write render)
      (v.inspectBy write' render') := by
  cases v with
  | returned id inner => exact h inner
  | function id params body scope =>
      exact S.bind (hBody body) fun _ => S.pure _
  | array id elements =>
      exact S.bind (S.mapM h elements) fun _ => S.pure _
  | hash id entries =>
      have hEntry :=
        S.mapM (fun e : HashKey × HashPair Value =>
          S.bind (h e.2.key) fun key =>
            S.bind (h e.2.value) fun value =>
              S.pure (key ++ ": " ++ value)) entries
      exact S.bind hEntry fun _ => S.pure _
  | _ => exact S.lift _

theorem printBy
    [Platform]
    {write : Value → M String}
    {write' : Value → N String}
    (h : ∀ v, S.rel (write v) (write' v))
    (args : List Value) :
    S.rel (Builtin.printBy write args)
      (Builtin.printBy write' args) := by
  induction args with
  | nil => exact S.pure _
  | cons v others ih =>
      exact S.bind (h v) fun _ =>
        S.bind (S.lift _) fun _ =>
          S.bind (S.lift _) fun _ => ih

variable {f : Node → ScopeId → M Value}
variable {g : Node → ScopeId → N Value}

theorem callBy
    {apply : Value → List Value → M Value}
    {apply' : Value → List Value → N Value}
    (h : ∀ n scope, S.rel (f n scope) (g n scope))
    (hApply : ∀ fn args, S.rel (apply fn args) (apply' fn args))
    (scope : ScopeId)
    (callee : Node)
    (args : List Node) :
    S.rel (callBy f apply scope callee args)
      (callBy g apply' scope callee args) := by
  refine S.bind (h callee scope) fun fn => S.unlessError fn ?_
  refine S.bind (S.expressions h scope args) fun vs => ?_
  cases vs with
  | ok vs => exact hApply fn vs
  | error stop => exact S.pure stop

/- Where parts are related, and values applied, nodes are. -/
theorem stepBy
    [Platform]
    {apply : Value → List Value → M Value}
    {apply' : Value → List Value → N Value}
    (h : ∀ n scope, S.rel (f n scope) (g n scope))
    (hApply : ∀ fn args, S.rel (apply fn args) (apply' fn args))
    (depth : Nat)
    (node : Node)
    (scope : ScopeId) :
    S.rel (stepBy f apply depth node scope)
      (stepBy g apply' depth node scope) := by
  unfold Eval.stepBy
  split
  · exact S.callBy h hApply scope _ _
  · exact S.step h depth _ scope

end Simulation

------------------------------------------------------------
-- The Order
------------------------------------------------------------

variable [Platform]

variable {α : Type}

/- The same results, apart from those where levels ran out. -/
def Below (x y : Eval α) : Prop :=
  ∀ m, x m = y m ∨ ∃ m', x m = .error .tooDeep m'

/- Whatever rules are made of keeps the order. -/
def below : Simulation Eval Eval where
  rel := Below
  pure _ _ := .inl rfl
  lift _ _ := .inl rfl
  bind := by
    intro α β x y f g hFirst hNext m
    change EStateM.bind x f m = EStateM.bind y g m ∨
      ∃ m', EStateM.bind x f m = .error .tooDeep m'
    unfold EStateM.bind
    rcases hFirst m with hSame | ⟨m', hDeep⟩
    · rw [hSame]
      cases y m with
      | ok a m' => exact hNext a m'
      | error e m' => exact .inl rfl
    · rw [hDeep]
      exact .inr ⟨m', rfl⟩

variable {depth depth' : Nat}

/- With more levels a tree has the same text. -/
omit [Platform] in
theorem render_below
    (hLe : depth ≤ depth')
    (n : Node) :
    Below (ofExcept (n.renderWithin depth))
      (ofExcept (n.renderWithin depth')) := by
  induction depth generalizing depth' n with
  | zero => exact fun m => .inr ⟨m, rfl⟩
  | succ depth ih =>
      obtain ⟨depth', rfl⟩ : ∃ k, depth' = k + 1 :=
        ⟨depth' - 1, by omega⟩
      rw [ofExcept_renderWithin, ofExcept_renderWithin]
      exact below.renderBy (ih (by omega)) n

/- With more levels a value has the same written form. -/
omit [Platform] in
theorem inspect_below
    (hLe : depth ≤ depth')
    (v : Value) :
    Below (ofExcept (v.inspect depth))
      (ofExcept (v.inspect depth')) := by
  induction depth generalizing depth' v with
  | zero => exact fun m => .inr ⟨m, rfl⟩
  | succ depth ih =>
      obtain ⟨depth', rfl⟩ : ∃ n, depth' = n + 1 :=
        ⟨depth' - 1, by omega⟩
      have hLess : depth ≤ depth' := by omega
      rw [v.ofExcept_inspect, v.ofExcept_inspect]
      exact below.inspectBy (ih hLess) (render_below hLess) v

theorem run_below
    (hLe : depth ≤ depth')
    (b : Builtin)
    (args : List Value) :
    Below (b.run depth args) (b.run depth' args) := by
  cases b with
  | puts =>
      unfold Builtin.run
      rw [Builtin.printValues_eq, Builtin.printValues_eq]
      exact below.bind (below.printBy (inspect_below hLe) args)
        fun _ => below.pure _
  | _ => exact fun m => .inl rfl

theorem apply_below
    {f g : Node → ScopeId → Eval Value}
    (h : ∀ n scope, Below (f n scope) (g n scope))
    (hLe : depth ≤ depth')
    (fn : Value)
    (args : List Value) :
    Below (apply f depth fn args) (apply g depth' fn args) := by
  cases fn with
  | builtin b =>
      exact below.bind (run_below hLe b args) fun _ =>
        below.lift _
  | _ => exact below.apply h depth _ args

theorem step_below
    {f g : Node → ScopeId → Eval Value}
    (h : ∀ n scope, Below (f n scope) (g n scope))
    (hLe : depth ≤ depth')
    (node : Node)
    (scope : ScopeId) :
    Below (step f depth node scope)
      (step g depth' node scope) := by
  cases node with
  | call _ callee args =>
      exact below.callBy h (apply_below h hLe) scope callee args
  | _ => exact below.step h depth _ scope

theorem evaluateWithin_below
    (hLe : depth ≤ depth')
    (node : Node)
    (scope : ScopeId) :
    Below (evaluateWithin depth node scope)
      (evaluateWithin depth' node scope) := by
  induction depth generalizing depth' node scope with
  | zero => exact fun m => .inr ⟨m, rfl⟩
  | succ depth ih =>
      obtain ⟨depth', rfl⟩ : ∃ n, depth' = n + 1 :=
        ⟨depth' - 1, by omega⟩
      have hLess : depth ≤ depth' := by omega
      exact step_below (ih hLess) hLess node scope

/- Where the levels suffice, more of them change nothing. -/
theorem evaluateWithin_eq_of_le
    {node : Node}
    {scope : ScopeId}
    {m : Machine}
    (hLe : depth ≤ depth')
    (hEnough :
      ∀ m', evaluateWithin depth node scope m ≠
        .error .tooDeep m') :
    evaluateWithin depth' node scope m =
      evaluateWithin depth node scope m := by
  rcases evaluateWithin_below hLe node scope m with
    hSame | ⟨m', hDeep⟩
  · exact hSame.symm
  · exact absurd hDeep (hEnough m')

end Eval

end Monkey
