import Monkey.Proofs.Parse.Locality
import Monkey.Proofs.Parse.Soundness

/-
  What the parser has read once, it reads again.

  Where a parse succeeds on one stream, it succeeds on any other
  one that goes on in the same way for as long as the first
  parse has looked ahead, within the same limit on nesting, and
  comes to the same place.

  The rounds of a loop are counted, and the second stream has to
  be long enough for them: every round passes a token.

  Main declarations:
    * `Parse.Follows`
    * `Parse.expression_follows`
    * `Parse.programStatements_follows`
-/

namespace Monkey

namespace Parse

open TokenStream (Shares)

variable {α β : Type}

------------------------------------------------------------
-- One Parse After Another
------------------------------------------------------------

/-
  Where `x` succeeds, so does `y` on a stream that shares with
  the one of `x` all tokens that were looked at, at most `c`.
  Distances are those of `Local`: the last token looked at was
  at `d` before and is at `d'` afterwards.
-/
def Follows
    (c d d' : Nat)
    (rel : α → α → Prop)
    (x y : Parse α) : Prop :=
  ∀ n s s',
    n ≤ c → n ≤ s'.pending.length → Shares n s s' →
      ∀ a t, x s = .ok a t →
        ∃ k, d ≤ k + d' ∧ t = s.drop k ∧
          (k + d' < n →
            ∃ b, y s' = .ok b (s'.drop k) ∧ rel a b)

namespace Follows

variable {c d d' e : Nat}
variable {rel : α → α → Prop}
variable {rel' : β → β → Prop}
variable {x y : Parse α}

/- Fewer tokens are shared. -/
theorem of_le
    {c' : Nat}
    (h : Follows c d d' rel x y)
    (hFewer : c' ≤ c) :
    Follows c' d d' rel x y :=
  fun n s s' hCount => h n s s' (Nat.le_trans hCount hFewer)

/- Where no token is shared, the second parse does not
   matter. -/
theorem of_zero
    {y' : Parse α}
    (h : Follows 0 d d' rel x y) :
    Follows 0 d d' rel x y' := by
  intro n s s' hCount hLength hShares a t hRun
  rcases h n s s' hCount hLength hShares a t hRun with
    ⟨k, hk, rfl, -⟩
  exact ⟨k, hk, rfl, fun hShared => by omega⟩

/- Only the distance passed is left where too little is
   shared. -/
theorem alone
    (h : Follows c d d' rel x y)
    {s t : TokenStream}
    {a : α}
    (hRun : x s = .ok a t) :
    ∃ k, d ≤ k + d' ∧ t = s.drop k := by
  rcases h 0 s s (Nat.zero_le _) (Nat.zero_le _)
      (TokenStream.shares_zero _ _) a t hRun with
    ⟨k, hk, rfl, -⟩
  exact ⟨k, hk, rfl⟩

------------------------------------------------------------
-- Combining Computations
------------------------------------------------------------

theorem pure
    {a b : α}
    (hDistance : d ≤ d')
    (h : rel a b) :
    Follows c d d' rel (Pure.pure a) (Pure.pure b) := by
  intro n s s' _ _ _ a' t hRun
  cases hRun
  exact ⟨0, by omega, rfl, fun _ => ⟨b, rfl, h⟩⟩

/- A computation that never succeeds. -/
theorem of_never
    (hNever : ∀ s a t, x s ≠ .ok a t) :
    Follows c d d' rel x y :=
  fun _ s _ _ _ _ a t hRun => absurd hRun (hNever s a t)

/- One computation after another. -/
theorem bind
    {f g : α → Parse β}
    (hFirst : Follows c d e rel x y)
    (hRefl : ∀ a, rel a a)
    (hNext :
      ∀ a b, rel a b → Follows c e d' rel' (f a) (g b)) :
    Follows c d d' rel' (x >>= f) (y >>= g) := by
  intro n s s' hCount hLength hShares b t hRun
  rcases bind_eq_ok.mp hRun with ⟨a, t₁, hx, hf⟩
  rcases hFirst n s s' hCount hLength hShares a t₁ hx with
    ⟨k, hk, rfl, hSame⟩
  by_cases hShared : k + e < n
  · rcases hSame hShared with ⟨a', hy, hRel⟩
    have hRest : n - k ≤ (s'.drop k).pending.length := by
      unfold TokenStream.drop
      rw [List.length_drop]
      omega
    rcases hNext a a' hRel (n - k) _ _ (by omega) hRest
        (hShares.drop k) b t hf with
      ⟨j, hj, rfl, hThen⟩
    refine ⟨k + j, by omega, TokenStream.drop_drop .., ?_⟩
    intro hShared'
    rcases hThen (by omega) with ⟨b', hg, hRel'⟩
    rw [← TokenStream.drop_drop]
    exact ⟨b', bind_eq_ok.mpr ⟨a', _, hy, hg⟩, hRel'⟩
  · rcases (hNext a a (hRefl a)).alone hf with ⟨j, hj, rfl⟩
    exact ⟨k + j, by omega, TokenStream.drop_drop ..,
      fun hShared' => by omega⟩

/- A computation after one whose result does not matter. -/
theorem andThen
    {f g : α → Parse β}
    (hFirst : Follows c d e Any x y)
    (hNext : ∀ a b, Follows c e d' rel' (f a) (g b)) :
    Follows c d d' rel' (x >>= f) (y >>= g) :=
  hFirst.bind (fun _ => trivial) fun a b _ => hNext a b

theorem ite
    {p p' : Prop}
    [Decidable p]
    [Decidable p']
    {z w : Parse α}
    (hCondition : p ↔ p')
    (hThen : Follows c d d' rel x y)
    (hElse : Follows c d d' rel z w) :
    Follows c d d' rel (if p then x else z)
      (if p' then y else w) := by
  by_cases hp : p
  · rw [if_pos hp, if_pos (hCondition.mp hp)]
    exact hThen
  · rw [if_neg hp, if_neg fun h => hp (hCondition.mpr h)]
    exact hElse

/- What has been looked at before may be left out. -/
theorem of_nearer
    (h : Follows c e d' rel x y)
    (hDistance : d ≤ e) :
    Follows c d d' rel x y := by
  intro n s s' hCount hLength hShares a t hRun
  rcases h n s s' hCount hLength hShares a t hRun with
    ⟨k, hk, hEnd, hSame⟩
  exact ⟨k, by omega, hEnd, hSame⟩

------------------------------------------------------------
-- Steps
------------------------------------------------------------

/- A result about which nothing needs to be known. -/
theorem done
    {a b : α}
    (hDistance : d ≤ d') :
    Follows c d d' Any (Pure.pure a) (Pure.pure b) :=
  .pure hDistance trivial

/- Go on with the current token. -/
theorem here
    {f g : Token → Parse β}
    (hNext :
      ∀ t u, t.Alike u → Follows c d d' rel' (f t) (g u)) :
    Follows c d d' rel' (Parse.current >>= f)
      (Parse.current >>= g) := by
  refine bind (e := d) ?_ .refl hNext
  intro n s s' _ _ hShares a t hRun
  rcases current_eq_ok.mp hRun with ⟨rfl, rfl⟩
  refine ⟨0, by omega, rfl, fun hShared => ?_⟩
  have hAlike := hShares 0 (by omega)
  rw [TokenStream.ahead_zero, TokenStream.ahead_zero] at hAlike
  exact ⟨_, rfl, hAlike⟩

/- Go on after looking at the next token. -/
theorem look
    {f g : Token → Parse β}
    (hDistance : d ≤ 1)
    (hNext :
      ∀ t u, t.Alike u → Follows c 1 d' rel' (f t) (g u)) :
    Follows c d d' rel' (Parse.peek >>= f)
      (Parse.peek >>= g) := by
  refine bind (e := 1) ?_ .refl hNext
  intro n s s' _ _ hShares a t hRun
  rcases peek_eq_ok.mp hRun with ⟨rfl, rfl⟩
  refine ⟨0, by omega, rfl, fun hShared => ?_⟩
  have hAlike := hShares 1 (by omega)
  rw [TokenStream.ahead_one, TokenStream.ahead_one] at hAlike
  exact ⟨_, rfl, hAlike⟩

/- Passing a token leaves one less to share. -/
theorem pass
    {f g : Unit → Parse β}
    (hDistance : d ≤ 1)
    (hNext : Follows (c - 1) 0 d' rel' (f ()) (g ())) :
    Follows c d d' rel' (Parse.advance >>= f)
      (Parse.advance >>= g) := by
  intro n s s' hCount hLength hShares b t hRun
  rw [bind_advance] at hRun ⊢
  rw [← TokenStream.drop_one] at hRun ⊢
  have hRest : n - 1 ≤ (s'.drop 1).pending.length := by
    unfold TokenStream.drop
    rw [List.length_drop]
    omega
  rcases hNext (n - 1) _ _ (by omega) hRest (hShares.drop 1) b
      t hRun with ⟨k, hk, rfl, hSame⟩
  refine ⟨1 + k, by omega, TokenStream.drop_drop .., ?_⟩
  intro hShared
  rw [← TokenStream.drop_drop]
  exact hSame (by omega)

/- So does passing a token of a certain kind. -/
theorem want
    {kind : TokenKind}
    {f g : Unit → Parse β}
    (hDistance : d ≤ 1)
    (hNext : Follows (c - 1) 0 d' rel' (f ()) (g ())) :
    Follows c d d' rel' (expect kind >>= f)
      (expect kind >>= g) := by
  have hLook :
      ∀ h : Unit → Parse β,
        expect kind >>= h =
          (Parse.peek >>= fun t =>
            if t.kind = kind then
              Parse.advance >>= h
            else
              fail (.unexpected kind t.kind) t) := by
    intro h
    funext s
    rw [bind_peek, bind_apply]
    unfold expect
    rw [bind_peek]
    by_cases hKind : s.peek.kind = kind
    · rw [if_pos hKind, if_pos hKind]
      rfl
    · rw [if_neg hKind, if_neg hKind]
      rfl
  rw [hLook, hLook]
  refine look hDistance fun t u hAlike =>
    ite (by rw [hAlike.1]) (pass (Nat.le_refl 1) hNext)
      (of_never fun _ _ _ => ?_)
  simp

/- Go on with more rounds than tokens are shared. -/
theorem count
    {f g : Nat → Parse β}
    (hNext :
      ∀ c' n n', c' < n' → Follows c' d d' rel' (f n) (g n')) :
    Follows c d d' rel' (Parse.rounds >>= f)
      (Parse.rounds >>= g) := by
  intro n s s' _ hLength hShares b t hRun
  rw [bind_rounds] at hRun ⊢
  exact hNext n _ _ (Nat.lt_succ_of_le hLength) n s s'
    (Nat.le_refl n) hLength hShares b t hRun

/-
  A loop with an argument follows another one that has more
  rounds than tokens are shared, if a round passes a token
  before it goes on.
-/
theorem of_rounds
    {ι : Type}
    {f g : Nat → ι → Parse β}
    (hStart : ∀ i, f 0 i = throw .tooDeep)
    (hRound :
      ∀ c n n',
        (∀ i j, Follows (c - 1) d d' rel' (f n i) (g n' j)) →
          ∀ i j,
            Follows c d d' rel' (f (n + 1) i)
              (g (n' + 1) j))
    {n' : Nat}
    (hEnough : c < n')
    (n : Nat)
    (i j : ι) :
    Follows c d d' rel' (f n i) (g n' j) := by
  induction n generalizing c n' i j with
  | zero =>
      rw [hStart]
      exact of_never fun _ _ _ => by simp
  | succ n ih =>
      cases c with
      | zero =>
          -- nothing is shared, and the rounds of the second
          -- loop may be chosen
          exact (hRound 0 n 1
            (fun i j => ih (Nat.zero_lt_one) i j) i j).of_zero
      | succ c =>
          obtain ⟨m, rfl⟩ : ∃ m, n' = m + 1 :=
            ⟨n' - 1, by omega⟩
          exact hRound (c + 1) n m
            (fun i j => ih (by omega) i j) i j

/- The same for a loop without an argument. -/
theorem of_round
    {loop loop' : Nat → Parse β}
    (hStart : loop 0 = throw .tooDeep)
    (hRound :
      ∀ c n n', Follows (c - 1) d d' rel' (loop n) (loop' n') →
        Follows c d d' rel' (loop (n + 1)) (loop' (n' + 1)))
    {n' : Nat}
    (hEnough : c < n')
    (n : Nat) :
    Follows c d d' rel' (loop n) (loop' n') :=
  of_rounds (f := fun n (_ : Unit) => loop n)
    (g := fun n (_ : Unit) => loop' n) (fun _ => hStart)
    (fun c n n' ih _ _ => hRound c n n' (ih () ()))
    hEnough n () ()

end Follows

section

variable {c : Nat}

theorem acceptOptional_follows
    (kind : TokenKind) :
    Follows c 1 1 Any (acceptOptional kind)
      (acceptOptional kind) := by
  refine .look (by decide) fun t u hAlike =>
    .ite (by rw [hAlike.1]) ?_ (.done (by decide))
  exact .pass (by decide) (.done (by decide))

theorem atPairsEnd_follows
    {d : Nat}
    (hDistance : d ≤ 1) :
    Follows c d 1 Eq atPairsEnd atPairsEnd :=
  .look hDistance fun t u hAlike =>
    .pure (by decide) (by rw [hAlike.1])

------------------------------------------------------------
-- Names
------------------------------------------------------------

theorem identifierHere_follows
    {d : Nat} :
    Follows c d d Any identifierHere identifierHere :=
  .here fun _ _ _ => .done (Nat.le_refl d)

theorem moreParameters_follows
    {n' : Nat}
    (hEnough : c < n')
    (n : Nat) :
    Follows c 0 1 Any (moreParameters n)
      (moreParameters n') := by
  refine .of_round rfl (fun c n n' ih => ?_) hEnough n
  exact .look (by decide) fun t u hAlike =>
    .ite (by rw [hAlike.1])
      (.pass (by decide) (.want (by decide)
        (identifierHere_follows.andThen fun _ _ =>
          (ih.of_le (Nat.sub_le _ _)).andThen fun _ _ =>
            .done (by decide))))
      (.done (by decide))

theorem parameters_follows :
    Follows c 0 0 Any parameters parameters :=
  .look (by decide) fun t u hAlike =>
    .ite (by rw [hAlike.1])
      (.pass (by decide) (.done (by decide)))
      (.want (by decide)
        (identifierHere_follows.andThen fun _ _ =>
          .count fun c' n n' hEnough =>
            (moreParameters_follows hEnough n).andThen
              fun _ _ => .want (by decide)
                (.done (by decide))))

------------------------------------------------------------
-- Statements
------------------------------------------------------------

variable {expr : Precedence → Parse Node}
variable
  (hExpr : ∀ c p, Follows c 0 1 Any (expr p) (expr p))

include hExpr

theorem letStatement_follows :
    Follows c 0 1 Any (letStatement expr)
      (letStatement expr) :=
  .here fun _ _ _ => .want (by decide)
    (identifierHere_follows.andThen fun _ _ =>
      .want (by decide) (.pass (by decide)
        ((hExpr _ _).andThen fun _ _ =>
          (acceptOptional_follows _).andThen fun _ _ =>
            .done (by decide))))

theorem returnStatement_follows :
    Follows c 0 1 Any (returnStatement expr)
      (returnStatement expr) := by
  refine .here fun _ _ _ => .look (by decide)
    fun t u hAlike => ?_
  rw [hAlike.1]
  refine .ite .rfl ?_ (.ite .rfl ?_ (.ite .rfl ?_ ?_))
  · exact .pass (by decide) (.done (by decide))
  · exact .done (by decide)
  · exact .done (by decide)
  · exact .pass (by decide) ((hExpr _ _).andThen fun _ _ =>
      (acceptOptional_follows _).andThen fun _ _ =>
        .done (by decide))

theorem statement_follows :
    Follows c 0 1 Any (statement expr) (statement expr) := by
  refine .here fun t u hAlike => ?_
  rw [hAlike.1]
  split
  · exact letStatement_follows hExpr
  · exact returnStatement_follows hExpr
  · exact .here fun _ _ _ => (hExpr _ _).andThen fun _ _ =>
      (acceptOptional_follows _).andThen fun _ _ =>
        .done (by decide)

/- One statement and those after it. -/
theorem consStatement_follows
    {more more' : Parse (List Node)}
    (hMore : Follows (c - 1) 0 0 Any more more') :
    Follows c 0 0 Any
      (do
        let first ← statement expr
        advance
        let others ← more
        return first :: others)
      (do
        let first ← statement expr
        advance
        let others ← more'
        return first :: others) :=
  (statement_follows hExpr).andThen fun _ _ =>
    .pass (by decide)
      (hMore.andThen fun _ _ => .done (by decide))

theorem blockStatements_follows
    {n' : Nat}
    (hEnough : c < n')
    (n : Nat) :
    Follows c 0 0 Any (blockStatements expr n)
      (blockStatements expr n') := by
  refine .of_round rfl (fun c n n' ih => ?_) hEnough n
  exact .here fun t u hAlike =>
    .ite (by rw [hAlike.1]) (.done (by decide))
      (.ite (by rw [hAlike.1]) (.of_never fun _ _ _ => by simp)
        (consStatement_follows hExpr ih))

theorem programStatements_follows
    {n' : Nat}
    (hEnough : c < n')
    (n : Nat) :
    Follows c 0 0 Any (programStatements expr n)
      (programStatements expr n') := by
  refine .of_round rfl (fun c n n' ih => ?_) hEnough n
  exact .here fun t u hAlike =>
    .ite (by rw [hAlike.1]) (.done (by decide))
      (consStatement_follows hExpr ih)

theorem block_follows :
    Follows c 0 0 Any (block expr) (block expr) :=
  .here fun _ _ _ => .pass (by decide)
    (.count fun c' n n' hEnough =>
      (blockStatements_follows hExpr hEnough n).andThen
        fun _ _ => .done (by decide))

------------------------------------------------------------
-- Lists of Expressions
------------------------------------------------------------

theorem moreExpressions_follows
    {n' : Nat}
    (hEnough : c < n')
    (n : Nat) :
    Follows c 1 1 Any (moreExpressions expr n)
      (moreExpressions expr n') := by
  refine .of_round rfl (fun c n n' ih => ?_) hEnough n
  exact .look (by decide) fun t u hAlike =>
    .ite (by rw [hAlike.1])
      (.pass (by decide) (.pass (by decide)
        ((hExpr _ _).andThen fun _ _ =>
          (ih.of_le (Nat.sub_le _ _)).andThen fun _ _ =>
            .done (by decide))))
      (.done (by decide))

theorem expressionList_follows
    (close : TokenKind) :
    Follows c 0 0 Any (expressionList expr close)
      (expressionList expr close) :=
  .look (by decide) fun t u hAlike =>
    .ite (by rw [hAlike.1])
      (.pass (by decide) (.done (by decide)))
      (.pass (by decide) ((hExpr _ _).andThen fun _ _ =>
        .count fun c' n n' hEnough =>
          (moreExpressions_follows hExpr hEnough n).andThen
            fun _ _ => .want (by decide)
              (.done (by decide))))

theorem hashPairs_follows
    {n' : Nat}
    (hEnough : c < n')
    (n : Nat) :
    Follows c 1 1 Any (hashPairs expr n)
      (hashPairs expr n') := by
  refine .of_round rfl (fun c n n' ih => ?_) hEnough n
  refine (atPairsEnd_follows (by decide)).bind
    (fun _ => rfl) ?_
  rintro atEnd _ rfl
  refine .ite .rfl (.done (by decide)) ?_
  refine .pass (by decide) ((hExpr _ _).andThen fun _ _ =>
    .want (by decide) (.pass (by decide)
      ((hExpr _ _).andThen fun _ _ => ?_)))
  refine (atPairsEnd_follows (by decide)).bind
    (fun _ => rfl) ?_
  rintro isLast _ rfl
  refine .ite .rfl ?_ ?_
  · exact (ih.of_le (by omega)).andThen fun _ _ =>
      .done (by decide)
  · exact .want (by decide)
      (((ih.of_le (by omega)).of_nearer (by decide)).andThen
        fun _ _ => .done (by decide))

------------------------------------------------------------
-- First Parts
------------------------------------------------------------

theorem alternative_follows :
    Follows c 0 1 Any (alternative expr) (alternative expr) :=
  .look (by decide) fun t u hAlike =>
    .ite (by rw [hAlike.1])
      (.pass (by decide) (.want (by decide)
        ((block_follows hExpr).andThen fun _ _ =>
          .done (by decide))))
      (.done (by decide))

theorem ifExpression_follows :
    Follows c 0 1 Any (ifExpression expr)
      (ifExpression expr) :=
  .here fun _ _ _ => .want (by decide)
    (.pass (by decide) ((hExpr _ _).andThen fun _ _ =>
      .want (by decide) (.want (by decide)
        ((block_follows hExpr).andThen fun _ _ =>
          (alternative_follows hExpr).andThen fun _ _ =>
            .done (by decide)))))

theorem functionLiteral_follows :
    Follows c 0 1 Any (functionLiteral expr)
      (functionLiteral expr) :=
  .here fun _ _ _ => .want (by decide)
    (parameters_follows.andThen fun _ _ =>
      .want (by decide)
        ((block_follows hExpr).andThen fun _ _ =>
          .done (by decide)))

omit hExpr in
theorem integerLiteral_follows :
    Follows c 0 1 Any integerLiteral integerLiteral := by
  refine .here fun t u hAlike => ?_
  rw [hAlike.2]
  cases readInteger? u.literal with
  | some m => exact .done (by decide)
  | none => exact .of_never fun _ _ _ => by simp

theorem firstPart_follows :
    Follows c 0 1 Any (firstPart expr) (firstPart expr) := by
  have hPrefix :
      Follows c 0 1 Any (prefixExpression expr)
        (prefixExpression expr) :=
    .here fun _ _ _ => .pass (by decide)
      ((hExpr _ _).andThen fun _ _ => .done (by decide))
  have hGroup :
      Follows c 0 1 Any (groupedExpression expr)
        (groupedExpression expr) :=
    .pass (by decide) ((hExpr _ _).andThen fun _ _ =>
      .want (by decide) (.done (by decide)))
  have hArray :
      Follows c 0 1 Any (arrayLiteral expr)
        (arrayLiteral expr) :=
    .here fun _ _ _ =>
      (expressionList_follows hExpr _).andThen fun _ _ =>
        .done (by decide)
  have hHash :
      Follows c 0 1 Any (hashLiteral expr)
        (hashLiteral expr) :=
    .here fun _ _ _ => .count fun c' n n' hEnough =>
      ((hashPairs_follows hExpr hEnough n).of_nearer
          (by decide)).andThen fun _ _ =>
        .want (by decide) (.done (by decide))
  refine .here fun t u hAlike => ?_
  rw [hAlike.1]
  generalize u.kind = kind
  split
  · exact .done (by decide)
  · exact integerLiteral_follows
  · exact .done (by decide)
  · exact .done (by decide)
  · exact .done (by decide)
  · exact hPrefix
  · exact hPrefix
  · exact hGroup
  · exact ifExpression_follows hExpr
  · exact functionLiteral_follows hExpr
  · exact hArray
  · exact hHash
  · exact .of_never fun _ _ _ => by simp

------------------------------------------------------------
-- Expressions
------------------------------------------------------------

theorem continuation_follows
    (left left' : Node) :
    Follows c 0 1 Any (continuation expr left)
      (continuation expr left') := by
  refine .here fun t u hAlike => ?_
  rw [hAlike.1]
  split
  · exact .here fun _ _ _ =>
      (expressionList_follows hExpr _).andThen fun _ _ =>
        .done (by decide)
  · exact .here fun _ _ _ => .pass (by decide)
      ((hExpr _ _).andThen fun _ _ => .want (by decide)
        (.done (by decide)))
  · refine .here fun t u hAlike => .pass (by decide) ?_
    rw [hAlike.1]
    exact (hExpr _ _).andThen fun _ _ => .done (by decide)

theorem continuations_follows
    (p : Precedence)
    {n' : Nat}
    (hEnough : c < n')
    (n : Nat)
    (left left' : Node) :
    Follows c 1 1 Any (continuations expr p n left)
      (continuations expr p n' left') := by
  refine .of_rounds (fun _ => rfl)
    (fun c n n' ih left left' => ?_) hEnough n left left'
  exact .look (by decide) fun t u hAlike =>
    .ite (by rw [hAlike.1])
      (.pass (by decide)
        ((continuation_follows hExpr left left').andThen ih))
      (.done (by decide))

theorem expressionStep_follows
    (p : Precedence) :
    Follows c 0 1 Any (expressionStep expr p)
      (expressionStep expr p) :=
  (firstPart_follows hExpr).andThen fun left left' =>
    .count fun _ n _ hEnough =>
      continuations_follows hExpr p hEnough n left left'

omit hExpr in
/- Expressions of any number of levels. -/
theorem expression_follows
    (depth : Nat)
    (p : Precedence) :
    Follows c 0 1 Any (expression depth p)
      (expression depth p) := by
  induction depth generalizing c p with
  | zero => exact .of_never fun _ _ _ => by simp [expression]
  | succ depth ih =>
      exact expressionStep_follows (fun _ p => ih p) p

end

end Parse

end Monkey
