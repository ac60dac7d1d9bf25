import Monkey.Proofs.Eval.ErrorsEnd
import Monkey.Proofs.Eval.HashLookup
import Monkey.Proofs.Eval.ReturnMarks

/-
  Returns out of nested blocks.

  A return statement may stand in a function or program itself
  or in blocks of conditionals that are statements there.  When
  it is executed, its mark passes through all these blocks, and
  the innermost call takes it off.

  The caller goes on with the value, unless that is a mark
  itself: only one mark is taken off, and the other one then
  stops the caller as well.

  Main declarations:
    * `Eval.Returns`
    * `LeavesFrom`
    * `Eval.Returns.leaves`
    * `return_leaves_call`
-/

namespace Monkey

------------------------------------------------------------
-- Executed Returns
------------------------------------------------------------

/-
  Evaluating a list of statements executes a return statement,
  which gives a value: there is the value, and the machine before
  it is marked.  The return stands in the list, or in a block
  of a conditional that is a statement of the list, and so on.
  Statements before it and conditions around it are evaluated.
-/
inductive Eval.Returns [Platform] (scope : ScopeId) :
    Nat → Machine → List Node → Node → Value → Machine → Prop
  | bare
      {depth : Nat}
      {m : Machine}
      {t : Token}
      {rest : List Node} :
      Returns scope (depth + 1) m (.returnStmt t none :: rest)
        (.returnStmt t none) .null m
  | value
      {depth : Nat}
      {m m' : Machine}
      {t : Token}
      {operand : Node}
      {v : Value}
      {rest : List Node}
      (hOperand :
        evaluateWithin depth operand scope m = .ok v m')
      (hFine : v.isError = false) :
      Returns scope (depth + 1) m
        (.returnStmt t (some operand) :: rest)
        (.returnStmt t (some operand)) v m'
  | later
      {depth : Nat}
      {m m₁ m' : Machine}
      {s ret : Node}
      {u v : Value}
      {rest : List Node}
      (hFirst : evaluateWithin depth s scope m = .ok u m₁)
      (hGoesOn : u.isFinal = false)
      (hRest : Returns scope depth m₁ rest ret v m') :
      Returns scope depth m (s :: rest) ret v m'
  | inside
      {depth : Nat}
      {m m₁ m' : Machine}
      {ts ti tb : Token}
      {condition consequence ret : Node}
      {alternative : Option Node}
      {c v : Value}
      {body rest : List Node}
      (hCondition :
        evaluateWithin (depth + 1) condition scope m = .ok c m₁)
      (hFine : c.isError = false)
      (hBranch :
        (if c.isTruthy then some consequence else alternative) =
          some (.block tb body))
      (hBody : Returns scope depth m₁ body ret v m') :
      Returns scope (depth + 3) m
        (.exprStmt ts
            (.ifElse ti condition consequence alternative) ::
          rest)
        ret v m'

------------------------------------------------------------
-- Nothing Happens After a Return
------------------------------------------------------------

/-
  A return statement gives a mark, and from then on the log has
  nothing but that the parts around it give the same mark.
-/
def LeavesFrom
    (ret : Node)
    (scope : ScopeId)
    (mark : Value)
    (m : Machine)
    (log : List Event) : Prop :=
  ∃ before parent passed,
    log = before ++ .yields parent ret scope mark m :: passed ∧
      ∀ e ∈ passed, e.Yields mark m

/- A computation that ends by a return, and what it gives. -/
structure Logged.Leaves
    {α : Type}
    (ret : Node)
    (scope : ScopeId)
    (mark : Value)
    (after : Machine)
    (x : Logged α)
    (m : Machine)
    (a : α) : Prop where
  gives : (x m).2 = .ok a after
  log : LeavesFrom ret scope mark after (x m).1

namespace Logged.Leaves

variable {α β : Type}
variable {ret : Node} {scope : ScopeId} {mark : Value}
variable {m m₁ after : Machine}

/- Whatever is evaluated before does not matter. -/
theorem behind
    {x : Logged α}
    {f : α → Logged β}
    {a : α}
    {b : β}
    (hx : (x m).2 = .ok a m₁)
    (h : Leaves ret scope mark after (f a) m₁ b) :
    Leaves ret scope mark after (x >>= f) m b := by
  rcases h with ⟨hGives, before, parent, passed, hLog, hPassed⟩
  constructor
  · rw [bind_of_ok hx]
    exact hGives
  · refine ⟨(x m).1 ++ before, parent, passed, ?_, hPassed⟩
    rw [bind_of_ok hx, List.append_assoc, ← hLog]

/- What is left may only pass the mark on. -/
theorem passing
    {x : Logged α}
    {f : α → Logged β}
    {a : α}
    {b : β}
    (h : Leaves ret scope mark after x m a)
    (hGives : (f a after).2 = .ok b after)
    (hPasses : ∀ e ∈ (f a after).1, e.Yields mark after) :
    Leaves ret scope mark after (x >>= f) m b := by
  rcases h with ⟨hx, before, parent, passed, hLog, hPassed⟩
  constructor
  · rw [bind_of_ok hx]
    exact hGives
  · refine ⟨before, parent, passed ++ (f a after).1, ?_, ?_⟩
    · rw [bind_of_ok hx, hLog, List.append_assoc,
        List.cons_append]
    · intro e hMem
      rcases List.mem_append.mp hMem with hOld | hNew
      · exact hPassed e hOld
      · exact hPasses e hNew

theorem then_pure
    {x : Logged α}
    {a : α}
    (h : Leaves ret scope mark after x m a)
    (f : α → β) :
    Leaves ret scope mark after (x >>= fun a => pure (f a)) m
      (f a) :=
  h.passing rfl nofun

/- The return statement itself, as a part. -/
theorem itself
    {eval : Node → ScopeId → Logged Value}
    (parent : Node)
    (h : (eval ret scope m).2 = .ok mark after) :
    Leaves ret scope mark after (part parent eval ret scope) m
      mark := by
  constructor
  · rw [part_of_ok h]
  · refine ⟨.begins parent ret scope m :: (eval ret scope m).1,
      parent, [], ?_, nofun⟩
    rw [part_of_ok h]
    rfl

/- A part around the return statement. -/
theorem around
    {eval : Node → ScopeId → Logged Value}
    {node : Node}
    {outer : ScopeId}
    (parent : Node)
    (h : Leaves ret scope mark after (eval node outer) m mark) :
    Leaves ret scope mark after (part parent eval node outer) m
      mark := by
  have hBegins :
      (note (.begins parent node outer) m).2 = .ok () m := rfl
  refine behind hBegins (h.passing rfl ?_)
  intro e hMem
  obtain rfl := List.mem_singleton.mp hMem
  exact ⟨parent, node, outer, rfl⟩

variable {eval : Node → ScopeId → Logged Value}
variable {outer : ScopeId}

/- The statements after the one that gives the mark are left
   out. -/
theorem statements_cons
    {s : Node}
    (h : Leaves ret scope mark after (eval s outer) m mark)
    (hFinal : mark.isFinal = true)
    (last : Value)
    (rest : List Node) :
    Leaves ret scope mark after
      (Eval.statements eval outer last (s :: rest)) m mark := by
  refine h.passing ?_ ?_
  · rw [if_pos hFinal]
    rfl
  · rw [if_pos hFinal]
    exact nofun

/- A statement before the one that gives the mark. -/
theorem statements_later
    {s : Node}
    {u : Value}
    {rest : List Node}
    (hFirst : (eval s outer m).2 = .ok u m₁)
    (hGoesOn : u.isFinal = false)
    (h :
      Leaves ret scope mark after
        (Eval.statements eval outer u rest) m₁ mark)
    (last : Value) :
    Leaves ret scope mark after
      (Eval.statements eval outer last (s :: rest)) m mark := by
  refine behind hFirst ?_
  rw [hGoesOn]
  exact h

/- The branch that is evaluated gives the mark. -/
theorem ifElse
    {condition consequence branch : Node}
    {alternative : Option Node}
    {c : Value}
    (hCondition : (eval condition outer m).2 = .ok c m₁)
    (hFine : c.isError = false)
    (hBranch :
      (if c.isTruthy then some consequence else alternative) =
        some branch)
    (h : Leaves ret scope mark after (eval branch outer) m₁ mark) :
    Leaves ret scope mark after
      (Eval.ifElse eval outer condition consequence alternative)
      m mark := by
  refine behind hCondition ?_
  rw [Eval.unlessError, hFine]
  cases hTruth : c.isTruthy with
  | true =>
      rw [hTruth] at hBranch
      cases hBranch
      exact h
  | false =>
      rw [hTruth] at hBranch
      obtain rfl : alternative = some branch := hBranch
      exact h

/- A call of a function takes one mark off. -/
theorem apply
    [Platform]
    {markId : Identity}
    {params : List Identifier}
    {body : Node}
    {vs : List Value}
    {inner : ScopeId}
    {v : Value}
    (depth : Nat)
    (id : Identity)
    (hScope : Eval.callScope outer params vs m = .ok inner m₁)
    (hMark : mark = .returned markId v)
    (h : Leaves ret scope mark after (eval body inner) m₁ mark) :
    Leaves ret scope mark after
      (Eval.apply eval depth (.function id params body outer) vs)
      m v := by
  have hLifted :
      ((liftM (Eval.callScope outer params vs) : Logged ScopeId)
        m).2 = .ok inner m₁ :=
    hScope
  subst hMark
  exact behind hLifted (h.then_pure Value.unwrapReturned)

end Logged.Leaves

------------------------------------------------------------
-- Blocks
------------------------------------------------------------

variable [Platform]

namespace Eval

/- A part is evaluated as without a log. -/
theorem part_of_evaluateWithin
    {depth : Nat}
    {node : Node}
    {scope : ScopeId}
    {m m' : Machine}
    {v : Value}
    (h : evaluateWithin depth node scope m = .ok v m')
    (parent : Node) :
    (Logged.part parent (evaluateLogged depth) node scope m).2 =
      .ok v m' := by
  rw [← part_evaluateLogged_result parent] at h
  exact h

/-
  The mark passes a block, the conditional that the block is a
  branch of, and the statement that the conditional is.
-/
theorem leaves_conditional
    {ret : Node}
    {scope inner : ScopeId}
    {mark c : Value}
    {depth : Nat}
    {m m₁ after : Machine}
    {tb : Token}
    {condition consequence : Node}
    {alternative : Option Node}
    {body : List Node}
    (ts ti : Token)
    (parent : Node)
    (hCondition :
      evaluateWithin (depth + 1) condition scope m = .ok c m₁)
    (hFine : c.isError = false)
    (hBranch :
      (if c.isTruthy then some consequence else alternative) =
        some (.block tb body))
    (hBody :
      Logged.Leaves ret inner mark after
        (statements
          (Logged.part (.block tb body) (evaluateLogged depth))
          scope .null body)
        m₁ mark) :
    Logged.Leaves ret inner mark after
      (Logged.part parent (evaluateLogged (depth + 3))
        (.exprStmt ts
          (.ifElse ti condition consequence alternative))
        scope)
      m mark := by
  let conditional : Node :=
    .ifElse ti condition consequence alternative
  let statement : Node := .exprStmt ts conditional
  have hBlock :
      Logged.Leaves ret inner mark after
        (evaluateLogged (depth + 1) (.block tb body) scope) m₁
        mark :=
    hBody
  have hConditional :
      Logged.Leaves ret inner mark after
        (evaluateLogged (depth + 2) conditional scope) m mark :=
    (hBlock.around conditional).ifElse
      (part_of_evaluateWithin hCondition conditional) hFine
      hBranch
  have hStatement :
      Logged.Leaves ret inner mark after
        (evaluateLogged (depth + 3) statement scope) m mark :=
    hConditional.around statement
  exact hStatement.around parent

/-
  An executed return gives its mark as the result of the
  statements around it, and nothing else happens.  The proof is
  by the way from the statements to the return.
-/
theorem Returns.leaves
    {scope : ScopeId}
    {depth : Nat}
    {m m' : Machine}
    {body : List Node}
    {ret : Node}
    {v : Value}
    (h : Returns scope depth m body ret v m')
    (parent : Node)
    (last : Value) :
    Logged.Leaves ret scope (.returned m'.nextIdentity v)
      { m' with nextIdentity := m'.nextIdentity + 1 }
      (statements (Logged.part parent (evaluateLogged depth))
        scope last body)
      m (.returned m'.nextIdentity v) := by
  induction h generalizing parent last with
  | @bare depth m t rest =>
      have hReturn :
          (evaluateLogged (depth + 1) (.returnStmt t none) scope
              m).2 =
            .ok (.returned m.nextIdentity .null)
              { m with nextIdentity := m.nextIdentity + 1 } :=
        rfl
      exact (Logged.Leaves.itself parent hReturn).statements_cons
        rfl last rest
  | @value depth m m' t operand v rest hOperand hFine =>
      have hReturn :
          (evaluateLogged (depth + 1)
              (.returnStmt t (some operand)) scope m).2 =
            .ok (.returned m'.nextIdentity v)
              { m' with nextIdentity := m'.nextIdentity + 1 } := by
        change (evaluateLogged _ _ _).result m = _
        rw [evaluateLogged_result]
        change returnStatement (M := Eval) (evaluateWithin depth)
          scope (some operand) m = _
        rw [returnStatement, bind_eq_of_ok hOperand, unlessError,
          hFine]
        rfl
      exact (Logged.Leaves.itself parent hReturn).statements_cons
        rfl last rest
  | later hFirst hGoesOn hRest ih =>
      exact (ih parent _).statements_later
        (part_of_evaluateWithin hFirst parent) hGoesOn last
  | @inside depth m m₁ m' ts ti tb condition consequence ret
      alternative c v body rest hCondition hFine hBranch _ ih =>
      have hStatement := leaves_conditional ts ti parent
        hCondition hFine hBranch (ih (.block tb body) .null)
      exact hStatement.statements_cons rfl last rest

------------------------------------------------------------
-- Calls and Programs
------------------------------------------------------------

variable {inner : ScopeId}
variable {depth : Nat}
variable {m m' : Machine}
variable {body : List Node}
variable {ret : Node}
variable {v : Value}

/- A program takes the mark off. -/
theorem Returns.leaves_program
    (h : Returns inner depth m body ret v m') :
    Logged.Leaves ret inner (.returned m'.nextIdentity v)
      { m' with nextIdentity := m'.nextIdentity + 1 }
      (evaluateLogged (depth + 1) (.program body) inner) m v :=
  (h.leaves (.program body) .null).then_pure
    Value.unwrapReturned

/- The values of expressions are those without a log. -/
theorem expressions_part_result
    (parent : Node)
    (depth : Nat)
    (scope : ScopeId)
    (es : List Node) :
    (expressions (Logged.part parent (evaluateLogged depth))
        scope es).result =
      expressions (evaluateWithin depth) scope es :=
  Logged.erasure.expressions
    (fun n s => congrFun (congrFun
      (part_evaluateLogged_result parent depth) n) s)
    scope es

/- A call takes the mark off. -/
theorem Returns.leaves_call
    {tb : Token}
    {callee : Node}
    {args : List Node}
    {id : Identity}
    {params : List Identifier}
    {outer scope : ScopeId}
    {m₀ m₁ m₂ : Machine}
    {vs : List Value}
    (t : Token)
    (h : Returns inner depth m body ret v m')
    (hCallee :
      evaluateWithin (depth + 1) callee scope m₀ =
        .ok (.function id params (.block tb body) outer) m₁)
    (hArgs :
      expressions (M := Eval) (evaluateWithin (depth + 1)) scope
          args m₁ =
        .ok (.ok vs) m₂)
    (hScope : callScope outer params vs m₂ = .ok inner m) :
    Logged.Leaves ret inner (.returned m'.nextIdentity v)
      { m' with nextIdentity := m'.nextIdentity + 1 }
      (evaluateLogged (depth + 2) (.call t callee args) scope) m₀
      v := by
  let call : Node := .call t callee args
  have hBlock :
      Logged.Leaves ret inner (.returned m'.nextIdentity v)
        { m' with nextIdentity := m'.nextIdentity + 1 }
        (evaluateLogged (depth + 1) (.block tb body) inner) m
        (.returned m'.nextIdentity v) :=
    h.leaves (.block tb body) .null
  have hApply :=
    (hBlock.around call).apply (depth + 1) id hScope rfl
  rw [← expressions_part_result call] at hArgs
  refine Logged.Leaves.behind
    (part_of_evaluateWithin hCallee call) ?_
  exact Logged.Leaves.behind hArgs hApply

end Eval

/- After a call the statements of the caller go on with its
   value, unless that ends them. -/
theorem Eval.statements_after_call
    {depth : Nat}
    {scope : ScopeId}
    {m after : Machine}
    {call : Node}
    {v : Value}
    (h : evaluateWithin depth call scope m = .ok v after)
    (t : Token)
    (last : Value)
    (rest : List Node) :
    statements (M := Eval) (evaluateWithin (depth + 1)) scope last
        (.exprStmt t call :: rest) m =
      if v.isFinal then
        .ok v after
      else
        statements (M := Eval) (evaluateWithin (depth + 1)) scope v
          rest after := by
  have hStatement :
      evaluateWithin (depth + 1) (.exprStmt t call) scope m =
        .ok v after :=
    h
  rw [statements, bind_eq_of_ok hStatement]
  cases v.isFinal with
  | true => rfl
  | false => rfl

/- A value that is no error ends statements only if it is a
   mark. -/
omit [Platform] in
theorem Value.isFinal_iff_isMark
    {v : Value}
    (hFine : v.isError = false) :
    v.isFinal = true ↔ v.IsMark := by
  cases v with
  | returned id w => exact ⟨fun _ => ⟨id, w, rfl⟩, fun _ => rfl⟩
  | error => cases hFine
  | _ => exact ⟨nofun, nofun⟩

/- A return gives no error. -/
theorem Eval.Returns.isError_eq_false
    {scope : ScopeId}
    {depth : Nat}
    {m m' : Machine}
    {body : List Node}
    {ret : Node}
    {v : Value}
    (h : Returns scope depth m body ret v m') :
    v.isError = false := by
  induction h with
  | bare => rfl
  | value _ hFine => exact hFine
  | later _ _ _ ih => exact ih
  | inside _ _ _ _ ih => exact ih

/-
  A return that is executed in a program, in any depth of blocks
  of conditionals, makes its value the result of the program.
  In the body of a function it makes it the value of the call.
  In both cases nothing happens after the return but that its
  mark passes the parts around it.  The statements of the caller
  go on with the value exactly if that is no mark itself.
-/
theorem return_leaves_call
    {inner : ScopeId}
    {depth : Nat}
    {m m' : Machine}
    {body : List Node}
    {ret : Node}
    {v : Value}
    (hReturns : Eval.Returns inner depth m body ret v m') :
    let mark : Value := .returned m'.nextIdentity v
    let after : Machine :=
      { m' with nextIdentity := m'.nextIdentity + 1 }
    (Eval.evaluateWithin (depth + 1) (.program body) inner m =
          .ok v after ∧
        LeavesFrom ret inner mark after
          (Eval.evaluateLogged (depth + 1) (.program body) inner
            m).1) ∧
      ∀ t tb callee args id params outer scope m₀ m₁ m₂ vs,
        Eval.evaluateWithin (depth + 1) callee scope m₀ =
            .ok (.function id params (.block tb body) outer) m₁ →
        Eval.expressions (M := Eval)
            (Eval.evaluateWithin (depth + 1)) scope args m₁ =
          .ok (.ok vs) m₂ →
        Eval.callScope outer params vs m₂ = .ok inner m →
        let call : Node := .call t callee args
        Eval.evaluateWithin (depth + 2) call scope m₀ =
            .ok v after ∧
          LeavesFrom ret inner mark after
            (Eval.evaluateLogged (depth + 2) call scope m₀).1 ∧
          ∀ ts last rest,
            let caller :=
              Eval.statements (M := Eval)
                (Eval.evaluateWithin (depth + 3)) scope last
                (.exprStmt ts call :: rest) m₀
            (¬ v.IsMark →
              caller =
                Eval.statements (M := Eval)
                  (Eval.evaluateWithin (depth + 3)) scope v rest
                  after) ∧
              (v.IsMark → caller = .ok v after) := by
  intro mark after
  have hFinal := Value.isFinal_iff_isMark hReturns.isError_eq_false
  have hProgram := hReturns.leaves_program
  refine ⟨⟨?_, hProgram.log⟩, ?_⟩
  · rw [← Eval.evaluateLogged_result]
    exact hProgram.gives
  · intro t tb callee args id params outer scope m₀ m₁ m₂ vs
      hCallee hArgs hScope call
    have hCall := hReturns.leaves_call t hCallee hArgs hScope
    have hValue :
        Eval.evaluateWithin (depth + 2) call scope m₀ =
          .ok v after := by
      rw [← Eval.evaluateLogged_result]
      exact hCall.gives
    refine ⟨hValue, hCall.log, ?_⟩
    intro ts last rest caller
    have hCaller := Eval.statements_after_call hValue ts last rest
    constructor
    · intro hNoMark
      rw [if_neg (fun h => hNoMark (hFinal.mp h))] at hCaller
      exact hCaller
    · intro hMark
      rw [if_pos (hFinal.mpr hMark)] at hCaller
      exact hCaller

/- In `fn(x) { if (x) { if (x) { return 7 }; 8 }; 9 }(true)`
   the seven leaves both blocks and the function. -/
omit [Platform] in
theorem return_leaves_call_nested :
    letI := Platform.usual
    let t : Token := ⟨.illegal, "", 0, 0⟩
    let x : Identifier := ⟨t, "x"⟩
    let seven : Node := .returnStmt t (some (.integer t 7))
    let deeper : Node :=
      .ifElse t (.identifier x) (.block t [seven]) none
    let outermost : Node :=
      .ifElse t (.identifier x)
        (.block t [.exprStmt t deeper, .exprStmt t (.integer t 8)])
        none
    let body : List Node :=
      [.exprStmt t outermost, .exprStmt t (.integer t 9)]
    let call : Node :=
      .call t (.function t [x] (.block t body)) [.boolean t true]
    ∃ after,
      Eval.evaluateWithin 10 call Machine.root .new =
        .ok (.int 7) after := by
  let := Platform.usual
  intro t x seven deeper outermost body call
  have hReturns :
      Eval.Returns 1 8
        { scopes := #[⟨none, []⟩, ⟨some 0, [("x", .bool true)]⟩]
          output := ""
          nextIdentity := 1 }
        body seven (.int 7)
        { scopes := #[⟨none, []⟩, ⟨some 0, [("x", .bool true)]⟩]
          output := ""
          nextIdentity := 1 } :=
    .inside rfl rfl rfl (.inside rfl rfl rfl (.value rfl rfl))
  have hLeaves :=
    (return_leaves_call hReturns).2 t t
      (.function t [x] (.block t body)) [.boolean t true] 0 [x] 0
      Machine.root .new { Machine.new with nextIdentity := 1 }
      { Machine.new with nextIdentity := 1 } [.bool true] rfl rfl
      rfl
  exact ⟨_, hLeaves.1⟩

/- In `let f = fn() { return if (true) { return 1 } }; f(); 99`
   the value that `f` returns is a mark.  It stops the program,
   and the last statement is not evaluated. -/
omit [Platform] in
theorem return_stops_caller :
    letI := Platform.usual
    let t : Token := ⟨.illegal, "", 0, 0⟩
    let one : Node := .returnStmt t (some (.integer t 1))
    let ret : Node :=
      .returnStmt t (some
        (.ifElse t (.boolean t true) (.block t [one]) none))
    (∃ m m' v,
        Eval.Returns 1 5 m [ret] ret v m' ∧ v.IsMark) ∧
      ∃ m',
        run "let f = fn() { return if (true) { return 1 } }; f(); 99"
            Machine.root .new =
          .ok (.int 1) m' := by
  let := Platform.usual
  intro t one ret
  refine ⟨⟨.new, { Machine.new with nextIdentity := 1 },
    .returned 0 (.int 1), .value rfl rfl, 0, .int 1, rfl⟩, ?_⟩
  exact ⟨_, rfl⟩

end Monkey
