import Monkey.Proofs.Parse.Steps

/-
  The limit on nesting stops a parse or leaves it alone.

  A parser is below another one if it does the same wherever it
  does not stop for the depth of nesting.  Every rule keeps this
  order of the parsers for nested expressions, so raising the
  limit changes no answer but `tooDeep`.

  Main declarations:
    * `Parse.Below`
    * `parseWithin_eq_of_le`
-/

namespace Monkey

namespace Parse

variable {α β : Type}

------------------------------------------------------------
-- The Order
------------------------------------------------------------

/- The same results, apart from those of nesting too deep. -/
def Below (x y : Parse α) : Prop :=
  ∀ s, x s = y s ∨ ∃ s', x s = .error .tooDeep s'

namespace Below

theorem refl
    (x : Parse α) :
    Below x x :=
  fun _ => .inl rfl

theorem tooDeep
    (y : Parse α) :
    Below (throw .tooDeep) y :=
  fun s => .inr ⟨s, rfl⟩

theorem bind
    {x y : Parse α}
    {f g : α → Parse β}
    (h : Below x y)
    (hNext : ∀ a, Below (f a) (g a)) :
    Below (x >>= f) (y >>= g) := by
  intro s
  rw [bind_apply, bind_apply]
  rcases h s with hSame | ⟨s', hDeep⟩
  · rw [hSame]
    cases y s with
    | ok a s' => exact hNext a s'
    | error e s' => exact .inl rfl
  · rw [hDeep]
    exact .inr ⟨s', rfl⟩

/- After the same first step. -/
theorem after
    {x : Parse α}
    {f g : α → Parse β}
    (hNext : ∀ a, Below (f a) (g a)) :
    Below (x >>= f) (x >>= g) :=
  bind (refl x) hNext

theorem ite
    {c : Prop}
    [Decidable c]
    {x y x' y' : Parse α}
    (h : Below x y)
    (h' : Below x' y') :
    Below (if c then x else x') (if c then y else y') := by
  split
  · exact h
  · exact h'

end Below

------------------------------------------------------------
-- Rules
------------------------------------------------------------

variable {expr expr' : Precedence → Parse Node}

theorem letStatement_below
    (h : ∀ p, Below (expr p) (expr' p)) :
    Below (letStatement expr) (letStatement expr') :=
  .after fun _ => .after fun _ => .after fun _ =>
    .after fun _ => .after fun _ =>
      .bind (h _) fun _ => .refl _

theorem returnStatement_below
    (h : ∀ p, Below (expr p) (expr' p)) :
    Below (returnStatement expr) (returnStatement expr') :=
  .after fun _ => .after fun _ =>
    .ite (.refl _) (.ite (.refl _) (.ite (.refl _)
      (.after fun _ => .bind (h _) fun _ => .refl _)))

theorem statement_below
    (h : ∀ p, Below (expr p) (expr' p)) :
    Below (statement expr) (statement expr') := by
  refine .after fun t => ?_
  split
  · exact letStatement_below h
  · exact returnStatement_below h
  · exact .after fun _ => .bind (h _) fun _ => .refl _

theorem blockStatements_below
    (h : ∀ p, Below (expr p) (expr' p))
    (n : Nat) :
    Below (blockStatements expr n)
      (blockStatements expr' n) := by
  induction n with
  | zero => exact .refl _
  | succ n ih =>
      exact .after fun _ => .ite (.refl _) (.ite (.refl _)
        (.bind (statement_below h) fun _ => .after fun _ =>
          .bind ih fun _ => .refl _))

theorem programStatements_below
    (h : ∀ p, Below (expr p) (expr' p))
    (n : Nat) :
    Below (programStatements expr n)
      (programStatements expr' n) := by
  induction n with
  | zero => exact .refl _
  | succ n ih =>
      exact .after fun _ => .ite (.refl _)
        (.bind (statement_below h) fun _ => .after fun _ =>
          .bind ih fun _ => .refl _)

theorem block_below
    (h : ∀ p, Below (expr p) (expr' p)) :
    Below (block expr) (block expr') :=
  .after fun _ => .after fun _ => .after fun n =>
    .bind (blockStatements_below h n) fun _ => .refl _

theorem program_below
    (h : ∀ p, Below (expr p) (expr' p)) :
    Below (program expr) (program expr') :=
  .after fun n =>
    .bind (programStatements_below h n) fun _ => .refl _

theorem moreExpressions_below
    (h : ∀ p, Below (expr p) (expr' p))
    (n : Nat) :
    Below (moreExpressions expr n)
      (moreExpressions expr' n) := by
  induction n with
  | zero => exact .refl _
  | succ n ih =>
      exact .after fun _ => .ite
        (.after fun _ => .after fun _ => .bind (h _) fun _ =>
          .bind ih fun _ => .refl _)
        (.refl _)

theorem expressionList_below
    (h : ∀ p, Below (expr p) (expr' p))
    (close : TokenKind) :
    Below (expressionList expr close)
      (expressionList expr' close) :=
  .after fun _ => .ite (.refl _)
    (.after fun _ => .bind (h _) fun _ => .after fun n =>
      .bind (moreExpressions_below h n) fun _ => .refl _)

theorem alternative_below
    (h : ∀ p, Below (expr p) (expr' p)) :
    Below (alternative expr) (alternative expr') :=
  .after fun _ => .ite
    (.after fun _ => .after fun _ =>
      .bind (block_below h) fun _ => .refl _)
    (.refl _)

theorem ifExpression_below
    (h : ∀ p, Below (expr p) (expr' p)) :
    Below (ifExpression expr) (ifExpression expr') :=
  .after fun _ => .after fun _ => .after fun _ =>
    .bind (h _) fun _ => .after fun _ => .after fun _ =>
      .bind (block_below h) fun _ =>
        .bind (alternative_below h) fun _ => .refl _

theorem functionLiteral_below
    (h : ∀ p, Below (expr p) (expr' p)) :
    Below (functionLiteral expr) (functionLiteral expr') :=
  .after fun _ => .after fun _ => .after fun _ =>
    .after fun _ => .bind (block_below h) fun _ => .refl _

theorem hashPairs_below
    (h : ∀ p, Below (expr p) (expr' p))
    (n : Nat) :
    Below (hashPairs expr n) (hashPairs expr' n) := by
  induction n with
  | zero => exact .refl _
  | succ n ih =>
      exact .after fun _ => .ite (.refl _)
        (.after fun _ => .bind (h _) fun _ => .after fun _ =>
          .after fun _ => .bind (h _) fun _ => .after fun _ =>
            .ite (.bind ih fun _ => .refl _)
              (.after fun _ => .bind ih fun _ => .refl _))

theorem firstPart_below
    (h : ∀ p, Below (expr p) (expr' p)) :
    Below (firstPart expr) (firstPart expr') := by
  refine .after fun t => ?_
  split
  case h_6 | h_7 =>
    exact .after fun _ => .after fun _ =>
      .bind (h _) fun _ => .refl _
  case h_8 =>
    exact .after fun _ => .bind (h _) fun _ => .refl _
  case h_9 => exact ifExpression_below h
  case h_10 => exact functionLiteral_below h
  case h_11 =>
    exact .after fun _ =>
      .bind (expressionList_below h _) fun _ => .refl _
  case h_12 =>
    exact .after fun _ => .after fun n =>
      .bind (hashPairs_below h n) fun _ => .refl _
  all_goals exact .refl _

theorem continuation_below
    (h : ∀ p, Below (expr p) (expr' p))
    (left : Node) :
    Below (continuation expr left)
      (continuation expr' left) := by
  refine .after fun t => ?_
  split
  · exact .after fun _ =>
      .bind (expressionList_below h _) fun _ => .refl _
  · exact .after fun _ => .after fun _ =>
      .bind (h _) fun _ => .refl _
  · exact .after fun _ => .after fun _ =>
      .bind (h _) fun _ => .refl _

theorem continuations_below
    (h : ∀ p, Below (expr p) (expr' p))
    (p : Precedence)
    (n : Nat)
    (left : Node) :
    Below (continuations expr p n left)
      (continuations expr' p n left) := by
  induction n generalizing left with
  | zero => exact .refl _
  | succ n ih =>
      exact .after fun _ => .ite
        (.after fun _ => .bind (continuation_below h left)
          fun extended => ih extended)
        (.refl _)

theorem expressionStep_below
    (h : ∀ p, Below (expr p) (expr' p))
    (p : Precedence) :
    Below (expressionStep expr p) (expressionStep expr' p) :=
  .bind (firstPart_below h) fun left => .after fun n =>
    continuations_below h p n left

/- More levels change nothing but `tooDeep`. -/
theorem expression_below
    {depth depth' : Nat}
    (hDepth : depth ≤ depth')
    (p : Precedence) :
    Below (expression depth p) (expression depth' p) := by
  induction depth generalizing depth' p with
  | zero => exact .tooDeep _
  | succ depth ih =>
      obtain ⟨depth', rfl⟩ : ∃ d, depth' = d + 1 :=
        ⟨depth' - 1, by omega⟩
      exact expressionStep_below
        (fun q => ih (by omega) q) p

end Parse

------------------------------------------------------------
-- Texts
------------------------------------------------------------

/- Where a limit is not reached, a higher one gives the same
   answer. -/
theorem parseWithin_eq_of_le
    {limit limit' : Nat}
    (source : String)
    (hLimit : limit ≤ limit')
    (hReached : parseWithin limit source ≠ .error .tooDeep) :
    parseWithin limit source = parseWithin limit' source := by
  unfold parseWithin at hReached ⊢
  rcases Parse.program_below
      (Parse.expression_below hLimit)
      (TokenStream.ofText source) with hSame | ⟨s, hDeep⟩
  · rw [hSame]
  · rw [hDeep] at hReached
    exact absurd rfl hReached

end Monkey
