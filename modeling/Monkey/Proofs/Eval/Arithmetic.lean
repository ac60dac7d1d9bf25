import Monkey.Proofs.Eval.Data
import Monkey.Proofs.Eval.HashLookup
import Monkey.Proofs.Parse.Spelling

/-
  Integer arithmetic.

  What an arithmetic expression is worth is told here without
  the operators of the language: sums and products are those of
  the integers, and a quotient is known by its remainder.  A
  tree is worth one integer, or it divides by zero somewhere.
  Evaluation comes to that, at whatever size and sign, unless
  the levels of nesting run out.

  Main declarations:
    * `Arithmetic`
    * `IsQuotient`
    * `Arithmetic.HasValue`
    * `Arithmetic.DividesByZero`
    * `Arithmetic.HasValue.comesTo`
    * `Arithmetic.DividesByZero.comesTo`
-/

namespace Monkey

------------------------------------------------------------
-- Quotients
------------------------------------------------------------

/- The integer that a division gives: what is left over is
   smaller than the divisor, and zero or of the sign of the
   dividend. -/
def IsQuotient (a b q : Int) : Prop :=
  ∃ r,
    a = b * q + r ∧
      r.natAbs < b.natAbs ∧
      (r = 0 ∨ r.sign = a.sign)

namespace IsQuotient

variable {a b q q' : Int}

/- Nothing is left over by zero. -/
theorem ne_zero
    (h : IsQuotient a b q) :
    b ≠ 0 := by
  rcases h with ⟨r, -, hSmall, -⟩
  rintro rfl
  exact Nat.not_lt_zero _ hSmall

/- Two remainders of one sign are closer to each other than the
   divisor is to zero. -/
theorem unique
    (h : IsQuotient a b q)
    (h' : IsQuotient a b q') :
    q = q' := by
  rcases h with ⟨r, hSum, hSmall, hSign⟩
  rcases h' with ⟨r', hSum', hSmall', hSign'⟩
  have hClose : (r' - r).natAbs < b.natAbs := by
    rcases Int.lt_trichotomy a 0 with hA | rfl | hA
    · rw [Int.sign_eq_neg_one_of_neg hA,
        Int.sign_eq_neg_one_iff_neg] at hSign hSign'
      omega
    · rw [Int.sign_zero, Int.sign_eq_zero_iff_zero]
        at hSign hSign'
      omega
    · rw [Int.sign_eq_one_of_pos hA,
        Int.sign_eq_one_iff_pos] at hSign hSign'
      omega
  have hProduct : b * (q - q') = r' - r := by
    rw [Int.mul_sub]
    omega
  rw [← hProduct, Int.natAbs_mul] at hClose
  have hNone : (q - q').natAbs = 0 := by
    rcases Nat.eq_zero_or_pos (q - q').natAbs with hZero | hSome
    · exact hZero
    · exact absurd hClose
        (Nat.not_lt.mpr (Nat.le_mul_of_pos_right _ hSome))
  omega

/- Division drops the fraction. -/
theorem tdiv
    (a : Int)
    (hb : b ≠ 0) :
    IsQuotient a b (a.tdiv b) := by
  refine ⟨a.tmod b, (Int.mul_tdiv_add_tmod a b).symm, ?_, ?_⟩
  · rw [Int.natAbs_tmod]
    exact Nat.mod_lt _ (Int.natAbs_pos.mpr hb)
  · rw [Int.sign_tmod]
    by_cases hDivides : b ∣ a
    · exact .inl (Int.tmod_eq_zero_of_dvd hDivides)
    · exact .inr (if_neg hDivides)

end IsQuotient

------------------------------------------------------------
-- Expressions and What They Are Worth
------------------------------------------------------------

/- The operators between two integers. -/
inductive ArithmeticOperator where
  | plus
  | minus
  | asterisk
  | slash

namespace ArithmeticOperator

/- How an operator is written. -/
def sign : ArithmeticOperator → String
  | plus => "+"
  | minus => "-"
  | asterisk => "*"
  | slash => "/"

/- What an operator makes of two integers. -/
inductive Computes :
    ArithmeticOperator → Int → Int → Int → Prop
  | plus (a b : Int) : Computes .plus a b (a + b)
  | minus (a b : Int) : Computes .minus a b (a - b)
  | asterisk (a b : Int) : Computes .asterisk a b (a * b)
  | slash
      {a b q : Int}
      (hQuotient : IsQuotient a b q) :
      Computes .slash a b q

/- An operator makes an integer of any two, but for a division
   by zero. -/
theorem exists_computes
    (operator : ArithmeticOperator)
    (a b : Int) :
    (∃ v, operator.Computes a b v) ∨
      operator = .slash ∧ b = 0 := by
  cases operator with
  | plus => exact .inl ⟨_, .plus a b⟩
  | minus => exact .inl ⟨_, .minus a b⟩
  | asterisk => exact .inl ⟨_, .asterisk a b⟩
  | slash =>
      by_cases hb : b = 0
      · exact .inr ⟨rfl, hb⟩
      · exact .inl ⟨_, .slash (.tdiv a hb)⟩

/- The language computes the same. -/
theorem Computes.applyInteger_eq
    {operator : ArithmeticOperator}
    {a b v : Int}
    (h : operator.Computes a b v) :
    Value.applyInteger operator.sign a b = .ok (.int v) := by
  cases h with
  | plus | minus | asterisk => rfl
  | slash hQuotient =>
      have hb := hQuotient.ne_zero
      rw [hQuotient.unique (.tdiv a hb)]
      exact if_neg hb

end ArithmeticOperator

/- Expressions of integer literals, a sign before an expression,
   and an operator between two. -/
inductive Arithmetic where
  | literal (n : Nat)
  | negation (e : Arithmetic)
  | operation
      (operator : ArithmeticOperator)
      (left : Arithmetic)
      (right : Arithmetic)

namespace Arithmetic

/- The syntax tree of an expression, without tokens. -/
def node : Arithmetic → Node
  | literal n => .integer .blank n
  | negation e => .prefixOp .blank "-" e.node
  | operation operator left right =>
      .infixOp .blank left.node operator.sign right.node

/- The levels of nesting of an expression. -/
def levels : Arithmetic → Nat
  | literal _ => 1
  | negation e => e.levels + 1
  | operation _ left right =>
      max left.levels right.levels + 1

/- What an expression is worth. -/
inductive HasValue : Arithmetic → Int → Prop
  | literal (n : Nat) : HasValue (.literal n) n
  | negation
      {e : Arithmetic}
      {a : Int}
      (h : HasValue e a) :
      HasValue (.negation e) (-a)
  | operation
      {operator : ArithmeticOperator}
      {left right : Arithmetic}
      {a b v : Int}
      (hLeft : HasValue left a)
      (hRight : HasValue right b)
      (hComputes : operator.Computes a b v) :
      HasValue (.operation operator left right) v

/- Somewhere in an expression the divisor of a division is
   zero. -/
inductive DividesByZero : Arithmetic → Prop
  | here
      {left right : Arithmetic}
      (hZero : right.HasValue 0) :
      DividesByZero (.operation .slash left right)
  | negation
      {e : Arithmetic}
      (h : DividesByZero e) :
      DividesByZero (.negation e)
  | left
      {operator : ArithmeticOperator}
      {left right : Arithmetic}
      (h : DividesByZero left) :
      DividesByZero (.operation operator left right)
  | right
      {operator : ArithmeticOperator}
      {left right : Arithmetic}
      (h : DividesByZero right) :
      DividesByZero (.operation operator left right)

/- An expression is worth something or divides by zero. -/
theorem hasValue_or_dividesByZero
    (e : Arithmetic) :
    (∃ v, e.HasValue v) ∨ e.DividesByZero := by
  induction e with
  | literal n => exact .inl ⟨n, .literal n⟩
  | negation e ih =>
      rcases ih with ⟨a, hValue⟩ | hZero
      · exact .inl ⟨-a, .negation hValue⟩
      · exact .inr (.negation hZero)
  | operation operator left right ihLeft ihRight =>
      rcases ihLeft with ⟨a, hLeft⟩ | hZero
      · rcases ihRight with ⟨b, hRight⟩ | hZero
        · rcases operator.exists_computes a b with
            ⟨v, hComputes⟩ | ⟨rfl, rfl⟩
          · exact .inl ⟨v, .operation hLeft hRight hComputes⟩
          · exact .inr (.here hRight)
        · exact .inr (.right hZero)
      · exact .inr (.left hZero)

end Arithmetic

------------------------------------------------------------
-- Trees with Tokens
------------------------------------------------------------

namespace Node

/- What a tree without its tokens is, it is with them. -/
theorem exists_of_bare_integer
    {n : Node}
    {t : Token}
    {i : Int}
    (h : n.bare = .integer t i) :
    ∃ t', n = .integer t' i := by
  unfold bare at h
  split at h <;> cases h
  exact ⟨_, rfl⟩

theorem exists_of_bare_prefixOp
    {n right : Node}
    {t : Token}
    {operator : String}
    (h : n.bare = .prefixOp t operator right) :
    ∃ t' right',
      n = .prefixOp t' operator right' ∧
        right'.bare = right := by
  unfold bare at h
  split at h <;> cases h
  exact ⟨_, _, rfl, rfl⟩

theorem exists_of_bare_infixOp
    {n left right : Node}
    {t : Token}
    {operator : String}
    (h : n.bare = .infixOp t left operator right) :
    ∃ t' left' right',
      n = .infixOp t' left' operator right' ∧
        left'.bare = left ∧
        right'.bare = right := by
  unfold bare at h
  split at h <;> cases h
  exact ⟨_, _, _, rfl, rfl, rfl⟩

theorem exists_of_bare_exprStmt
    {n e : Node}
    {t : Token}
    (h : n.bare = .exprStmt t e) :
    ∃ t' e', n = .exprStmt t' e' ∧ e'.bare = e := by
  unfold bare at h
  split at h <;> cases h
  exact ⟨_, _, rfl, rfl⟩

/- A program of one statement. -/
theorem exists_of_bare_program
    {p s : Node}
    (h : p.bare = .program [s]) :
    ∃ s', p = .program [s'] ∧ s'.bare = s := by
  cases p with
  | program ss =>
      rw [bare, program.injEq] at h
      cases ss with
      | nil => cases h
      | cons s' rest =>
          cases rest with
          | nil =>
              cases h
              exact ⟨s', rfl, rfl⟩
          | cons => cases h
  | ifElse =>
      rw [bare_ifElse] at h
      cases h
  | returnStmt t value => cases value <;> cases h
  | _ => cases h

end Node

------------------------------------------------------------
-- Evaluation
------------------------------------------------------------

variable [Platform]

namespace Eval

/-
  A computation within a number of levels comes to an outcome:
  with the levels that are needed it does that, and with fewer
  it may stop for want of levels, with the machine as it was.
-/
def ComesTo
    (needed : Nat)
    (x : Nat → Eval Value)
    (outcome : Eval Value) : Prop :=
  ∀ depth m,
    x depth m = outcome m ∨
      depth < needed ∧ x depth m = .error .tooDeep m

/- The evaluation of a node within a number of levels. -/
def evaluating
    (node : Node)
    (scope : ScopeId)
    (depth : Nat) : Eval Value :=
  evaluateWithin depth node scope

namespace ComesTo

variable {k k' : Nat}
variable {x : Nat → Eval Value}
variable {f : Nat → Value → Eval Value}
variable {v : Value} {message : String}
variable {outcome : Eval Value}

omit [Platform] in
theorem mono
    (h : ComesTo k x outcome)
    (hNeeded : k ≤ k') :
    ComesTo k' x outcome := by
  intro depth m
  rcases h depth m with hOutcome | ⟨hFewer, hDeep⟩
  · exact .inl hOutcome
  · exact .inr ⟨Nat.lt_of_lt_of_le hFewer hNeeded, hDeep⟩

/- What does not depend on the levels. -/
omit [Platform] in
theorem atOnce
    {y : Eval Value}
    (h : y = outcome) :
    ComesTo k (fun _ => y) outcome := by
  intro depth m
  rw [h]
  exact .inl rfl

/- Going on with a value that is no error. -/
omit [Platform] in
theorem goOn
    (hx : ComesTo k x (pure v))
    (hFine : v.isError = false)
    (hf : ComesTo k (fun depth => f depth v) outcome) :
    ComesTo k
      (fun depth =>
        x depth >>= fun v => unlessError v (f depth v))
      outcome := by
  intro depth m
  rcases hx depth m with hValue | ⟨hFewer, hDeep⟩
  · have hRun :
        (x depth >>= fun v => unlessError v (f depth v)) m =
          f depth v m := by
      rw [bind_eq_of_ok hValue, unlessError, hFine]
      rfl
    rcases hf depth m with hOutcome | ⟨hFewer, hDeep⟩
    · exact .inl (hRun.trans hOutcome)
    · exact .inr ⟨hFewer, hRun.trans hDeep⟩
  · exact .inr ⟨hFewer, bind_eq_of_error hDeep _⟩

/- Not going on with an error. -/
omit [Platform] in
theorem stop
    (hx : ComesTo k x (raise message)) :
    ComesTo k
      (fun depth =>
        x depth >>= fun v => unlessError v (f depth v))
      (raise message) := by
  intro depth m
  rcases hx depth m with hError | ⟨hFewer, hDeep⟩
  · exact .inl (bind_eq_of_ok hError)
  · exact .inr ⟨hFewer, bind_eq_of_error hDeep _⟩

/- A node takes one level more than what it does. -/
theorem node
    {node : Node}
    {scope : ScopeId}
    (hStep :
      ∀ depth, evaluateWithin (depth + 1) node scope = x depth)
    (hx : ComesTo k x outcome) :
    ComesTo (k + 1) (evaluating node scope) outcome := by
  intro depth m
  cases depth with
  | zero => exact .inr ⟨Nat.succ_pos k, rfl⟩
  | succ depth =>
      rcases hx depth m with hOutcome | ⟨hFewer, hDeep⟩
      · refine .inl ?_
        rw [evaluating, hStep, hOutcome]
      · refine .inr ⟨Nat.succ_lt_succ hFewer, ?_⟩
        rw [evaluating, hStep, hDeep]

variable {scope : ScopeId}

theorem prefixOp
    {operator : String}
    {right : Node}
    (t : Token)
    (h :
      ComesTo k
        (fun depth =>
          evaluating right scope depth >>= fun r =>
            unlessError r (settle (r.applyPrefix operator)))
        outcome) :
    ComesTo (k + 1) (evaluating (.prefixOp t operator right) scope)
      outcome :=
  node (fun _ => rfl) h

theorem infixOp
    {left right : Node}
    {operator : String}
    (t : Token)
    (h :
      ComesTo k
        (fun depth =>
          evaluating left scope depth >>= fun l =>
            unlessError l
              (evaluating right scope depth >>= fun r =>
                unlessError r (settle (l.applyInfix operator r))))
        outcome) :
    ComesTo (k + 1)
      (evaluating (.infixOp t left operator right) scope)
      outcome :=
  node (fun _ => rfl) h

/- A program that is a single expression, worth something that
   is no mark. -/
theorem program
    {e : Node}
    (first : Token)
    (h : ComesTo k (evaluating e scope) outcome)
    (hPlain :
      ∀ m, ∃ v m',
        outcome m = .ok v m' ∧ v.unwrapReturned = v) :
    ComesTo (k + 2)
      (evaluating (.program [.exprStmt first e]) scope)
      outcome := by
  let statement : Node := .exprStmt first e
  have hStatement :
      ComesTo (k + 1) (evaluating statement scope) outcome :=
    node (fun _ => rfl) h
  have hProgram :
      ComesTo (k + 1)
        (fun depth =>
          statements (M := Eval) (evaluateWithin depth) scope .null
              [statement] >>= fun v =>
            pure v.unwrapReturned)
        outcome := by
    intro depth m
    rcases hStatement depth m with hValue | ⟨hFewer, hDeep⟩
    · rcases hPlain m with ⟨v, m', hOutcome, hUnwrapped⟩
      have hGives :
          evaluateWithin depth statement scope m = .ok v m' :=
        hValue.trans hOutcome
      have hStatements := statements_single hGives .null
      refine .inl ((bind_eq_of_ok hStatements).trans ?_)
      rw [hUnwrapped, hOutcome]
      rfl
    · exact .inr ⟨hFewer,
        bind_eq_of_error (bind_eq_of_error hDeep _) _⟩
  exact node (fun _ => rfl) hProgram

end ComesTo

end Eval

------------------------------------------------------------
-- Arithmetic
------------------------------------------------------------

namespace Arithmetic

/-
  An expression evaluates to what it is worth, whatever tokens
  its tree has.
-/
theorem HasValue.comesTo
    {e : Arithmetic}
    {v : Int}
    (h : e.HasValue v)
    {n : Node}
    (hTree : n.bare = e.node)
    (scope : ScopeId) :
    Eval.ComesTo e.levels (Eval.evaluating n scope)
      (pure (.int v)) := by
  induction h generalizing n with
  | literal i =>
      rcases Node.exists_of_bare_integer hTree with ⟨t, rfl⟩
      exact .node (fun _ => rfl) (.atOnce rfl)
  | @negation e a _ ih =>
      rcases Node.exists_of_bare_prefixOp hTree with
        ⟨t, right, rfl, hRight⟩
      have hSign :
          Eval.settle ((Value.int a).applyPrefix "-") =
            pure (.int (-a)) :=
        rfl
      exact .prefixOp t ((ih hRight).goOn rfl (.atOnce hSign))
  | @operation operator left right a b v _ _ hComputes ihLeft
      ihRight =>
      rcases Node.exists_of_bare_infixOp hTree with
        ⟨t, l, r, rfl, hLeft, hRight⟩
      have hOperation :
          Eval.settle
              ((Value.int a).applyInfix operator.sign (.int b)) =
            pure (.int v) := by
        change Eval.settle
          (Value.applyInteger operator.sign a b) = _
        rw [hComputes.applyInteger_eq]
        rfl
      have hFirst := (ihLeft hLeft).mono
        (Nat.le_max_left left.levels right.levels)
      have hSecond := (ihRight hRight).mono
        (Nat.le_max_right left.levels right.levels)
      exact .infixOp t
        (hFirst.goOn rfl (hSecond.goOn rfl (.atOnce hOperation)))

/- An expression that divides by zero evaluates to an error that
   says so. -/
theorem DividesByZero.comesTo
    {e : Arithmetic}
    (h : e.DividesByZero)
    {n : Node}
    (hTree : n.bare = e.node)
    (scope : ScopeId) :
    Eval.ComesTo e.levels (Eval.evaluating n scope)
      (Eval.raise "division by zero") := by
  induction e generalizing n with
  | literal i => cases h
  | negation e ih =>
      rcases Node.exists_of_bare_prefixOp hTree with
        ⟨t, right, rfl, hRight⟩
      cases h with
      | negation hZero => exact .prefixOp t (ih hZero hRight).stop
  | operation operator left right ihLeft ihRight =>
      rcases Node.exists_of_bare_infixOp hTree with
        ⟨t, l, r, rfl, hLeft, hRight⟩
      have hLeftLevels :=
        Nat.le_max_left left.levels right.levels
      have hRightLevels :=
        Nat.le_max_right left.levels right.levels
      -- An error on the left comes first, whatever is on the
      -- right.
      rcases left.hasValue_or_dividesByZero with
        ⟨a, hValue⟩ | hZero
      · have hFirst := (hValue.comesTo hLeft scope).mono hLeftLevels
        cases h with
        | here hZero =>
            have hDivisor :=
              (hZero.comesTo hRight scope).mono hRightLevels
            exact .infixOp t
              (hFirst.goOn rfl (hDivisor.goOn rfl (.atOnce rfl)))
        | left hZero =>
            exact .infixOp t
              ((ihLeft hZero hLeft).mono hLeftLevels).stop
        | right hZero =>
            have hSecond :=
              (ihRight hZero hRight).mono hRightLevels
            exact .infixOp t (hFirst.goOn rfl hSecond.stop)
      · exact .infixOp t
          ((ihLeft hZero hLeft).mono hLeftLevels).stop

end Arithmetic

end Monkey
