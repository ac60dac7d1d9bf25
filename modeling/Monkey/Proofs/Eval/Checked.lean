import Monkey.Proofs.Eval.Simulation

/-
  Evaluation with operations that can be refused.

  The host has operations that it refuses for some operands: to
  take an element from where there is none, to divide by zero,
  to take the key of a value without one, and to go on with
  arguments that a builtin function has rejected.  `Checked`
  makes such a refusal visible as a `Fault`.  The rules here say
  what is tested before each operation, and every one of them
  comes to the same as the rule in `Eval`: no operation is ever
  refused.

  Main declarations:
    * `Fault`
    * `Eval.evaluateChecked`
    * `Eval.evaluateChecked_eq`
-/

namespace Monkey

------------------------------------------------------------
-- Faults
------------------------------------------------------------

/- What the host refuses. -/
inductive Fault where
  | noElement
  | zeroDivisor
  | noNumber
  | noKey
  | argument (e : ArgumentError)

/- What ends a checked evaluation without a value. -/
inductive Stop where
  | failure (f : Failure)
  | fault (f : Fault)

/- A computation on a machine that can fail or be refused
   something. -/
abbrev Checked := EStateM Stop Machine

namespace Checked

/- A computation that is refused nothing. -/
def lift
    {α : Type}
    (x : Eval α) :
    Checked α :=
  fun m =>
    match x m with
    | .ok a after => .ok a after
    | .error f after => .error (.failure f) after

instance : MonadLift Eval Checked where
  monadLift := lift

/- The result of an operation, if it is not refused. -/
def ofHost
    {α : Type}
    (result : Except Fault α) :
    Checked α :=
  match result with
  | .ok a => pure a
  | .error f => throw (.fault f)

theorem lift_bind
    {α β : Type}
    (x : Eval α)
    (f : α → Eval β) :
    lift (x >>= f) = lift x >>= fun a => lift (f a) := by
  funext m
  change lift (EStateM.bind x f) m = EStateM.bind (lift x) _ m
  unfold lift EStateM.bind
  cases hResult : x m <;> simp only [hResult]

/- Evaluation that is refused nothing, as checked evaluation. -/
def simulation : Eval.Simulation Checked Eval where
  rel x y := x = lift y
  pure _ := rfl
  bind := by
    rintro α β x y f g rfl hNext
    rw [lift_bind]
    exact congrArg _ (funext hNext)
  lift _ := rfl

end Checked

------------------------------------------------------------
-- Operations of the Host
------------------------------------------------------------

namespace Host

/- The element at a position, which is counted from the end if
   it is negative. -/
def element
    {α : Type}
    (xs : List α)
    (position : Int) :
    Except Fault α :=
  let fromStart :=
    if position < 0 then position + xs.length else position
  if fromStart < 0 then
    .error .noElement
  else
    match xs[fromStart.toNat]? with
    | some x => .ok x
    | none => .error .noElement

/- The quotient, rounded down. -/
def floorQuotient
    (a : Int)
    (b : Int) :
    Except Fault Int :=
  if b = 0 then
    .error .zeroDivisor
  else
    .ok (a.fdiv b)

/- The quotient without its fraction, which is rounded down for
   the absolute values and gets its sign after that. -/
def quotient
    (a : Int)
    (b : Int) :
    Except Fault Int := do
  let q ← floorQuotient a.natAbs b.natAbs
  return if (a < 0) = (b < 0) then q else -q

/- The number of an integer. -/
def number (v : Value) : Except Fault Int :=
  match v with
  | .int n => .ok n
  | _ => .error .noNumber

/- The key of a value that has one; to make it may fail. -/
def key
    [Platform]
    (v : Value) : Except Fault (Except Failure HashKey) :=
  match v.hashKey? with
  | some made => .ok made
  | none => .error .noKey

theorem element_last
    {α : Type}
    (x : α)
    (rest : List α) :
    element (x :: rest) (-1) = .ok (rest.getLastD x) := by
  have hLast :
      (x :: rest)[rest.length]? = some (rest.getLastD x) := by
    have hEnd := List.getLast?_eq_getElem? (l := x :: rest)
    rw [List.length_cons, Nat.add_sub_cancel] at hEnd
    rw [← hEnd, List.getLast?_cons, List.getLastD_eq_getLast?]
  have hPosition :
      -1 + ((x :: rest).length : Int) = rest.length := by
    rw [List.length_cons]
    omega
  have hStart : ¬ (rest.length : Int) < 0 := by omega
  unfold element
  simp only [hPosition, Int.reduceNeg, Int.reduceLT, if_true,
    if_neg hStart, Int.toNat_natCast, hLast]

theorem element_of_lt
    {α : Type}
    (xs : List α)
    {i : Int}
    (hStart : 0 ≤ i)
    (hEnd : i < xs.length) :
    ∃ x, xs[i.toNat]? = some x ∧ element xs i = .ok x := by
  have hBound : i.toNat < xs.length := by omega
  refine ⟨xs[i.toNat], List.getElem?_eq_getElem hBound, ?_⟩
  unfold element
  simp only [Int.not_lt.mpr hStart, if_false,
    List.getElem?_eq_getElem hBound]

/- Division by anything but zero is not refused. -/
theorem quotient_eq
    (a : Int)
    {b : Int}
    (hZero : b ≠ 0) :
    quotient a b = .ok (a.tdiv b) := by
  have hDivisor : (b.natAbs : Int) ≠ 0 := by omega
  have hFloor :
      (a.natAbs : Int).fdiv b.natAbs =
        (a.natAbs : Int).tdiv b.natAbs :=
    Int.fdiv_eq_tdiv_of_nonneg (by omega) (by omega)
  have hAbs :
      ∀ n : Int, (n.natAbs : Int) = if n < 0 then -n else n := by
    intro n
    split <;> omega
  have hSign :
      (if (a < 0) = (b < 0) then
        (a.natAbs : Int).tdiv b.natAbs
      else
        -(a.natAbs : Int).tdiv b.natAbs) = a.tdiv b := by
    rw [hAbs, hAbs]
    by_cases hA : a < 0 <;> by_cases hB : b < 0 <;>
      simp [hA, hB, Int.neg_tdiv, Int.tdiv_neg]
  unfold quotient floorQuotient
  rw [if_neg hDivisor, hFloor, ← hSign]
  rfl

end Host

------------------------------------------------------------
-- Operators
------------------------------------------------------------

variable [Platform]

namespace Value

/- Whether a value is an integer. -/
def isInteger (v : Value) : Bool :=
  v.type == .integer

/- Whether a value is of a type that can be a key. -/
def isHashable (v : Value) : Bool :=
  v.type == .integer || v.type == .boolean ||
    v.type == .string

/- Apply a prefix operator, with a test for `-`. -/
def applyPrefixChecked
    (operator : String)
    (right : Value) :
    Except Fault (Except Complaint Value) :=
  match operator with
  | "!" => return .ok (.bool !right.isTruthy)
  | "-" =>
      if right.isInteger then do
        return .ok (.int (-(← Host.number right)))
      else
        return .error (.unknownPrefix "-" right.type)
  | _ => return .error (.unknownPrefix operator right.type)

/- Apply an infix operator, with a test before division. -/
def applyInfixChecked
    (operator : String)
    (left : Value)
    (right : Value) :
    Except Fault (Except Complaint Value) :=
  match operator, left, right with
  | "/", .int a, .int b =>
      if b = 0 then
        return .error .divisionByZero
      else do
        return .ok (.int (← Host.quotient a b))
  | _, _, _ => return left.applyInfix operator right

/- Index a value, with tests for the position and the key. -/
def applyIndexChecked
    (left : Value)
    (subscript : Value) :
    Except Fault (Except Failure (Except Complaint Value)) :=
  match left, subscript with
  | .array _ elements, .int i =>
      if i < 0 ∨ elements.length ≤ i then
        return .ok (.ok .null)
      else do
        return .ok (.ok (← Host.element elements i))
  | .hash _ entries, v =>
      if v.isHashable then do
        let made ← Host.key v
        return made.map fun key => .ok (entryAt entries key)
      else
        return .ok (.error (.unusableKey v.type))
  | v, _ => return .ok (.error (.notIndexable v.type))

omit [Platform] in
theorem applyPrefixChecked_eq
    (operator : String)
    (right : Value) :
    right.applyPrefixChecked operator =
      .ok (right.applyPrefix operator) := by
  unfold applyPrefixChecked
  split
  · rfl
  · cases right <;> rfl
  · next hNot hMinus =>
      have hOther :
          right.applyPrefix operator =
            .error (.unknownPrefix operator right.type) := by
        unfold applyPrefix
        split
        · exact absurd rfl hNot
        · exact absurd rfl hMinus
        · rfl
      rw [hOther]
      rfl

omit [Platform] in
theorem applyInfixChecked_eq
    (operator : String)
    (left right : Value) :
    left.applyInfixChecked operator right =
      .ok (left.applyInfix operator right) := by
  unfold applyInfixChecked
  split
  · next a b =>
      by_cases hZero : b = 0
      · subst hZero
        rfl
      · rw [if_neg hZero, Host.quotient_eq a hZero]
        simp only [applyInfix, applyInteger, if_neg hZero]
        rfl
  · rfl

/- A value is hashable if it has a key. -/
theorem key_eq_of_hashKey
    {v : Value}
    {made : Except Failure HashKey}
    (h : v.hashKey? = some made) :
    v.isHashable = true ∧ Host.key v = .ok made := by
  unfold Host.key
  rw [h]
  cases v with
  | int | bool | hostBool | str => exact ⟨rfl, rfl⟩
  | _ => cases h

theorem isHashable_of_hashKey_none
    {v : Value}
    (h : v.hashKey? = none) :
    v.isHashable = false := by
  cases v with
  | int | bool | hostBool | str => cases h
  | _ => rfl

theorem applyIndexChecked_eq
    (left subscript : Value) :
    left.applyIndexChecked subscript =
      .ok (left.applyIndex subscript) := by
  cases left with
  | array id elements =>
      cases subscript with
      | int i =>
          unfold applyIndexChecked applyIndex elementAt
          by_cases hOutside : i < 0 ∨ elements.length ≤ i
          · simp only [if_pos hOutside]
            rcases hOutside with hNegative | hLong
            · rw [if_pos hNegative]
              rfl
            · have hNone : elements[i.toNat]? = none :=
                List.getElem?_eq_none (by omega)
              rw [hNone]
              split <;> rfl
          · have hNegative : ¬ i < 0 := fun h => hOutside (.inl h)
            rcases Host.element_of_lt elements
              (Int.not_lt.mp hNegative) (by omega) with
              ⟨v, hFound, hElement⟩
            simp only [if_neg hOutside, if_neg hNegative,
              hElement, hFound]
            rfl
      | _ => rfl
  | hash id entries =>
      unfold applyIndexChecked applyIndex
      cases hKey : subscript.hashKey? with
      | none =>
          simp only [isHashable_of_hashKey_none hKey, hKey]
          rfl
      | some made =>
          rcases key_eq_of_hashKey hKey with ⟨hHashable, hHost⟩
          simp only [hHashable, hHost, hKey]
          cases made <;> rfl
  | _ => rfl

end Value

------------------------------------------------------------
-- Builtin Functions
------------------------------------------------------------

namespace Builtin

/- Reject a wrong number of arguments. -/
def expectCount
    (args : List Value)
    (want : Nat) :
    Except Fault Unit :=
  if args.length = want then
    .ok ()
  else
    .error (.argument (.wrongCount args.length want))

/- The elements of an argument; all but arrays are rejected. -/
def arrayArgument
    (b : Builtin)
    (v : Value) :
    Except Fault (List Value) :=
  match v with
  | .array _ elements => .ok elements
  | v => .error (.argument (.notArray b v.type))

/- The elements of the only argument. -/
def onlyArray
    (b : Builtin)
    (args : List Value) :
    Except Fault (List Value) := do
  expectCount args 1
  b.arrayArgument (← Host.element args 0)

/- Run a builtin function on arguments that it may reject. -/
def runChecked
    (depth : Nat)
    (b : Builtin)
    (args : List Value) :
    Checked Value := do
  match b with
  | .len =>
      let v ← Checked.ofHost do
        expectCount args 1
        Host.element args 0
      match v with
      | .str s => return .int s.length
      | v => throw (.fault (.argument (.unsupported len v.type)))
  | .first =>
      let elements ← Checked.ofHost (onlyArray first args)
      if elements.isEmpty then
        return .null
      else
        Checked.ofHost (Host.element elements 0)
  | .last =>
      let elements ← Checked.ofHost (onlyArray last args)
      if elements.isEmpty then
        return .null
      else
        Checked.ofHost (Host.element elements (-1))
  | .rest =>
      let elements ← Checked.ofHost (onlyArray rest args)
      if elements.isEmpty then
        return .null
      else
        newArray elements.tail
  | .push =>
      let (elements, item) ← Checked.ofHost do
        expectCount args 2
        let elements ←
          push.arrayArgument (← Host.element args 0)
        return (elements, ← Host.element args 1)
      newArray (elements ++ [item])
  | .puts =>
      printValues depth args
      return .null

/- Call a builtin function.  Only a rejection of its arguments
   becomes an error value. -/
def callChecked
    (depth : Nat)
    (b : Builtin)
    (args : List Value) :
    Checked Value :=
  tryCatch (b.runChecked depth args) fun
    | .fault (.argument e) =>
        Eval.raise (Complaint.argument e).message
    | other => throw other

/- What a run comes to, with a rejection as a fault. -/
def settleArguments
    (result : Except ArgumentError Value) :
    Checked Value :=
  match result with
  | .ok v => pure v
  | .error e => throw (.fault (.argument e))

omit [Platform] in
theorem onlyArray_eq
    (b : Builtin)
    (args : List Value) :
    onlyArray b args =
      match oneArray b args with
      | .ok elements => .ok elements
      | .error e => .error (.argument e) := by
  rcases args with _ | ⟨v, _ | ⟨w, others⟩⟩
  · rfl
  · cases v <;> rfl
  · rfl

theorem runChecked_eq
    (depth : Nat)
    (b : Builtin)
    (args : List Value) :
    b.runChecked depth args =
      Checked.lift (b.run depth args) >>= settleArguments := by
  cases b with
  | len =>
      rcases args with _ | ⟨v, _ | ⟨w, others⟩⟩
      · rfl
      · cases v <;> rfl
      · rfl
  | first =>
      simp only [runChecked, run, onlyArray_eq]
      cases oneArray first args with
      | error e => rfl
      | ok elements => cases elements <;> rfl
  | last =>
      simp only [runChecked, run, onlyArray_eq]
      cases oneArray last args with
      | error e => rfl
      | ok elements =>
          cases elements with
          | nil => rfl
          | cons x others =>
              change Checked.ofHost (Host.element _ _) =
                Checked.ofHost (.ok (List.getLastD _ _))
              rw [Host.element_last, List.getLastD_cons]
  | rest =>
      simp only [runChecked, run, onlyArray_eq]
      cases oneArray rest args with
      | error e => rfl
      | ok elements => cases elements <;> rfl
  | push =>
      rcases args with _ | ⟨v, _ | ⟨w, _ | ⟨x, others⟩⟩⟩
      · rfl
      · rfl
      · cases v <;> rfl
      · rfl
  | puts =>
      simp only [runChecked, run, Checked.lift_bind, bind_assoc]
      rfl

/- A call is refused nothing: what `runChecked` rejects becomes
   an error value. -/
theorem callChecked_eq
    (depth : Nat)
    (b : Builtin)
    (args : List Value) :
    b.callChecked depth args =
      Checked.lift (b.call depth args) := by
  unfold callChecked call
  rw [runChecked_eq, Checked.lift_bind]
  funext m
  change EStateM.tryCatch (EStateM.bind (Checked.lift _) _) _ m =
    EStateM.bind (Checked.lift _) _ m
  unfold EStateM.tryCatch EStateM.bind Checked.lift
  cases hRun : b.run depth args m with
  | error f after => rfl
  | ok result after =>
      cases result with
      | ok v => rfl
      | error e => rfl

end Builtin

------------------------------------------------------------
-- Rules
------------------------------------------------------------

namespace Eval

variable (eval : Node → ScopeId → Checked Value)

/- The outcome of an operation that may be refused. -/
def settleChecked
    (outcome : Except Fault (Except Complaint Value)) :
    Checked Value := do
  settle (← Checked.ofHost outcome)

/- Look a value up in another one, which may be refused. -/
def lookInsideChecked
    (left : Value)
    (subscript : Value) :
    Checked Value := do
  let outcome ←
    Checked.ofHost (left.applyIndexChecked subscript)
  (do settle (← ofExcept outcome) : Eval Value)

/- Extend a table by the values of pairs of expressions, with a
   test before the key of a value is taken. -/
def hashPairsChecked
    (scope : ScopeId)
    (table : Table HashKey (HashPair Value)) :
    List (Node × Node) →
      Checked (Except Value (Table HashKey (HashPair Value)))
  | [] => return .ok table
  | (keyNode, valueNode) :: rest => do
      let key ← eval keyNode scope
      if key.isError then
        return .error key
      else if key.isHashable then
        let value ← eval valueNode scope
        if value.isError then
          return .error value
        else
          match (← Checked.ofHost (Host.key key)) with
          | .ok k =>
              hashPairsChecked scope
                (table.insert k { key, value }) rest
          | .error f => (throw f : Eval _)
      else
        let c := Complaint.unusableKey key.type
        return .error (← raise c.message)

/- Apply a function to arguments that it may reject. -/
def applyChecked
    (depth : Nat)
    (fn : Value)
    (args : List Value) :
    Checked Value :=
  match fn with
  | .builtin b => b.callChecked depth args
  | fn => apply eval depth fn args

/- Evaluate a node whose parts are evaluated by `eval`, with the
   tests before operations that can be refused. -/
def stepChecked
    (depth : Nat)
    (node : Node)
    (scope : ScopeId) :
    Checked Value :=
  match node with
  | .prefixOp _ operator right => do
      let r ← eval right scope
      unlessError r
        (settleChecked (r.applyPrefixChecked operator))
  | .infixOp _ left operator right => do
      let l ← eval left scope
      unlessError l do
        let r ← eval right scope
        unlessError r
          (settleChecked (l.applyInfixChecked operator r))
  | .index _ left subscript => do
      let l ← eval left scope
      unlessError l do
        let i ← eval subscript scope
        unlessError i (lookInsideChecked l i)
  | .call _ callee args => do
      let fn ← eval callee scope
      unlessError fn do
        match (← expressions eval scope args) with
        | .ok vs => applyChecked eval depth fn vs
        | .error stop => return stop
  | .hash _ pairs => do
      match (← hashPairsChecked eval scope [] pairs) with
      | .ok table => return .hash (← fresh) table
      | .error stop => return stop
  | node => step eval depth node scope

/- Evaluate a node in a scope with at most a number of levels of
   nesting and recursion, where operations can be refused. -/
def evaluateChecked : Nat → Node → ScopeId → Checked Value
  | 0, _, _ => throw (.failure .tooDeep)
  | depth + 1, node, scope =>
      stepChecked (evaluateChecked depth) depth node scope

theorem hashPairsChecked_eq
    (scope : ScopeId)
    (table : Table HashKey (HashPair Value))
    (pairs : List (Node × Node)) :
    hashPairsChecked eval scope table pairs =
      hashPairs eval scope table pairs := by
  induction pairs generalizing table with
  | nil => rfl
  | cons pair rest ih =>
      unfold hashPairsChecked hashPairs
      refine congrArg _ (funext fun key => ?_)
      by_cases hError : key.isError = true
      · rw [if_pos hError, if_pos hError]
      · rw [if_neg hError, if_neg hError]
        cases hKey : key.hashKey? with
        | none =>
            rw [Value.isHashable_of_hashKey_none hKey]
            rfl
        | some made =>
            rcases Value.key_eq_of_hashKey hKey with
              ⟨hHashable, hHost⟩
            rw [hHashable, if_pos rfl]
            refine congrArg _ (funext fun value => ?_)
            rw [hHost]
            split
            · rfl
            · cases made with
              | ok k => exact ih _
              | error f => rfl

theorem applyChecked_eq
    (depth : Nat)
    (fn : Value)
    (args : List Value) :
    applyChecked eval depth fn args =
      apply eval depth fn args := by
  cases fn with
  | builtin b => exact b.callChecked_eq depth args
  | _ => rfl

/- A rule with tests comes to the same as the rule without. -/
theorem stepChecked_eq
    (depth : Nat)
    (node : Node)
    (scope : ScopeId) :
    stepChecked eval depth node scope =
      step eval depth node scope := by
  cases node with
  | prefixOp t operator right =>
      simp only [stepChecked, Value.applyPrefixChecked_eq]
      rfl
  | infixOp t left operator right =>
      simp only [stepChecked, Value.applyInfixChecked_eq]
      rfl
  | index t left subscript =>
      simp only [stepChecked, lookInsideChecked,
        Value.applyIndexChecked_eq]
      rfl
  | call t callee args =>
      simp only [stepChecked, applyChecked_eq]
      rfl
  | hash t pairs =>
      simp only [stepChecked, hashPairsChecked_eq]
      rfl
  | _ => rfl

/- No operation is refused in an evaluation. -/
theorem evaluateChecked_eq
    (depth : Nat)
    (node : Node)
    (scope : ScopeId) :
    evaluateChecked depth node scope =
      Checked.lift (evaluateWithin depth node scope) := by
  induction depth generalizing node scope with
  | zero => rfl
  | succ depth ih =>
      unfold evaluateChecked
      rw [stepChecked_eq]
      exact Checked.simulation.step ih depth node scope

end Eval

end Monkey
