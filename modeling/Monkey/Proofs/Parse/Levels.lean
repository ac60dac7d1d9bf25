import Monkey.Proofs.Parse.Acceptance
import Monkey.Proofs.Parse.Relocation
import Monkey.Proofs.Token.Writing

/-
  How many levels of nesting a list takes.

  A spelling is read within as many levels of nesting as it has
  tokens, but a list takes only one level more than the deepest
  of its parts, however many of these there are.

  Main declarations:
    * `Parse.ReadsAt`
    * `Parse.Separated`
    * `Parse.ReadsAt.array`
    * `Parse.ReadsAt.hash`
    * `parseWithin_of_readsAt`
-/

namespace Monkey

namespace Parse

variable {levels d n : Nat}
variable {t u z : Token}
variable {r ts us : List Token}

------------------------------------------------------------
-- Expressions Within Levels
------------------------------------------------------------

/- An expression that is read within a number of levels. -/
structure ReadsAt
    (levels : Nat)
    (e : Node)
    (ts : List Token) : Prop where
  opens : ∃ t rest, ts = t :: rest ∧ t.kind.StartsExpression
  run : ∀ {d : Nat}, levels ≤ d → RunsAt d e ts

/- As many levels as there are tokens suffice. -/
theorem ReadsAt.of_spells
    {e : Node}
    {b : Precedence}
    (h : Spells Eq (.expression e b) ts) :
    ReadsAt ts.length e ts :=
  ⟨h.expression_opens,
    ReadsLowest.runsAt (Reads.lowest (Reads.of_spells h) h)⟩

theorem ReadsAt.length_pos
    {e : Node}
    (h : ReadsAt levels e ts) :
    0 < ts.length := by
  rcases h.opens with ⟨t, rest, rfl, -⟩
  exact Nat.zero_lt_succ _

theorem ReadsAt.mono
    {more : Nat}
    {e : Node}
    (h : ReadsAt levels e ts)
    (hLevels : levels ≤ more) :
    ReadsAt more e ts :=
  ⟨h.opens, fun hMore => h.run (Nat.le_trans hLevels hMore)⟩

/- A first part takes one level for itself. -/
theorem ReadsAt.of_firstPart
    {e : Node}
    (hOpens :
      ∃ t rest, ts = t :: rest ∧ t.kind.StartsExpression)
    (h :
      ∀ {d : Nat} {u : Token} {r : List Token} {z : Token},
        levels ≤ d →
          ∃ t,
            firstPart (expression d) ⟨ts ++ u :: r, z⟩ =
              .ok e ⟨t :: u :: r, z⟩) :
    ReadsAt (levels + 1) e ts := by
  refine ⟨hOpens, ?_⟩
  intro d hLevels u r z hSeparates
  obtain ⟨d, rfl⟩ : ∃ m, d = m + 1 := ⟨d - 1, by omega⟩
  rcases h (u := u) (r := r) (z := z)
      (Nat.le_of_succ_le_succ hLevels) with ⟨t, hFirst⟩
  refine ⟨t, ?_⟩
  have hLoose :
      ¬ Precedence.lowest.rank < u.kind.precedence.rank := by
    rw [hSeparates.loose]
    decide
  simp only [expression, expressionStep, bind_apply, hFirst,
    rounds_apply, continuations, peek_apply, hLoose, if_false,
    pure_apply]

------------------------------------------------------------
-- Separated Parts
------------------------------------------------------------

/- One or more parts with commas between them. -/
inductive Separated
    {α : Type}
    (part : α → List Token → Prop) :
    α → List α → List Token → Prop
  | last
      {x : α}
      {ts : List Token}
      (hPart : part x ts) :
      Separated part x [] ts
  | more
      {x y : α}
      {xs : List α}
      {comma : Token}
      {ts us : List Token}
      (hPart : part x ts)
      (hComma : comma.kind = .comma)
      (hMore : Separated part y xs us) :
      Separated part x (y :: xs) (ts ++ comma :: us)

/- Where parts are spelled alike, whole lists of them are. -/
theorem exists_separated_of_alike
    {α β : Type}
    {part : α → List Token → Prop}
    {Same : β → α → Prop}
    {y : β}
    {ys : List β}
    {tss : List (List Token)}
    (h :
      List.Forall₂
        (fun y ts =>
          ∀ us, List.Forall₂ Token.Alike ts us →
            ∃ x, Same y x ∧ part x us)
        (y :: ys) tss)
    (hAlike :
      List.Forall₂ Token.Alike
        (List.intercalate [Token.ofMark .comma ','] tss) us) :
    ∃ x xs,
      List.Forall₂ Same (y :: ys) (x :: xs) ∧
        Separated part x xs us := by
  induction ys generalizing y tss us with
  | nil =>
      rcases List.forall₂_cons_left_iff.mp h with
        ⟨ts, rest, hFirst, hRest, rfl⟩
      cases hRest
      rw [List.intercalate_singleton] at hAlike
      rcases hFirst us hAlike with ⟨x, hSame, hPart⟩
      exact ⟨x, [], .cons hSame .nil, .last hPart⟩
  | cons y' ys ih =>
      rcases List.forall₂_cons_left_iff.mp h with
        ⟨ts, rest, hFirst, hRest, rfl⟩
      rcases List.forall₂_cons_left_iff.mp hRest with
        ⟨ts', rest', -, -, rfl⟩
      rw [List.intercalate_cons_cons, List.append_assoc]
        at hAlike
      rcases exists_append_of_alike hAlike with
        ⟨vs, others, rfl, hVs, hOthers⟩
      rcases exists_cons_of_alike hOthers with
        ⟨comma, ws, rfl, hComma, hWs⟩
      rcases hFirst vs hVs with ⟨x, hSame, hPart⟩
      rcases ih hRest hWs with ⟨x', xs, hSames, hMore⟩
      exact ⟨x, x' :: xs, .cons hSame hSames,
        .more hPart hComma.1.symm hMore⟩

------------------------------------------------------------
-- Arrays
------------------------------------------------------------

/- The first expression of several, and then the others. -/
theorem Separated.expressions
    {e : Node}
    {es : List Node}
    (h : Separated (ReadsAt levels) e es ts)
    (hLevels : levels ≤ d)
    (hClosing : u.kind = .rparen ∨ u.kind = .rbracket) :
    ∃ t s t',
      expression d .lowest ⟨ts ++ u :: r, z⟩ =
          .ok e ⟨t :: s, z⟩ ∧
        s.length < (ts ++ u :: r).length ∧
        ∀ n, s.length ≤ n →
          moreExpressions (expression d) n ⟨t :: s, z⟩ =
            .ok es ⟨t' :: u :: r, z⟩ := by
  induction h with
  | last hPart =>
      rcases hPart.run (r := r) (z := z) hLevels
          (separates_of_closing hClosing) with ⟨t, hRun⟩
      have hSome := hPart.length_pos
      refine ⟨t, u :: r, t, hRun, ?_, ?_⟩
      · simp only [List.length_append, List.length_cons]
        omega
      · intro n hRounds
        obtain ⟨n, rfl⟩ : ∃ m, n = m + 1 :=
          Nat.exists_eq_add_one.mpr
            (Nat.lt_of_lt_of_le (Nat.zero_lt_succ _) hRounds)
        have hComma : u.kind ≠ .comma := by
          rcases hClosing with hKind | hKind <;>
            rw [hKind] <;> decide
        simp only [moreExpressions, bind_apply, peek_apply,
          hComma, if_false, pure_apply]
  | @more e e' es comma ts us hPart hComma _ ih =>
      rcases hPart.run (r := us ++ u :: r) (z := z) hLevels
          (.of_kind hComma (by decide)) with ⟨t, hRun⟩
      have hSome := hPart.length_pos
      rcases ih with ⟨t₁, s, t₂, hNext, hShorter, hOthers⟩
      refine ⟨t, comma :: (us ++ u :: r), t₂, ?_, ?_, ?_⟩
      · rw [List.append_assoc, List.cons_append]
        exact hRun
      · simp only [List.length_append, List.length_cons]
        omega
      · intro n hRounds
        obtain ⟨n, rfl⟩ : ∃ m, n = m + 1 :=
          Nat.exists_eq_add_one.mpr
            (Nat.lt_of_lt_of_le (Nat.zero_lt_succ _) hRounds)
        have hFewer : s.length ≤ n := by
          rw [List.length_cons] at hRounds
          omega
        simp only [moreExpressions, bind_apply, peek_apply,
          hComma, if_true, advance_apply, hNext,
          hOthers n hFewer, pure_apply]

/- The first token of several parts. -/
theorem Separated.opens
    {α : Type}
    {part : α → List Token → Prop}
    {x : α}
    {xs : List α}
    (h : Separated part x xs ts)
    (hPart :
      ∀ {x us}, part x us →
        ∃ t rest, us = t :: rest ∧ t.kind.StartsExpression) :
    ∃ t rest, ts = t :: rest ∧ t.kind.StartsExpression := by
  cases h with
  | last hFirst => exact hPart hFirst
  | more hFirst =>
      rcases hPart hFirst with ⟨t, rest, rfl, hStart⟩
      exact ⟨t, _, rfl, hStart⟩

/- Several expressions up to a closing token. -/
theorem Separated.expressionList
    {e : Node}
    {es : List Node}
    (h : Separated (ReadsAt levels) e es ts)
    (hLevels : levels ≤ d)
    (hClosing : u.kind = .rparen ∨ u.kind = .rbracket) :
    Parse.expressionList (expression d) u.kind
        ⟨t :: (ts ++ u :: r), z⟩ =
      .ok (e :: es) ⟨u :: r, z⟩ := by
  rcases h.expressions (r := r) (z := z) hLevels hClosing with
    ⟨t₁, s, t₂, hFirst, -, hOthers⟩
  rcases h.opens ReadsAt.opens with
    ⟨first, rest, rfl, hStart⟩
  have hNotClosing :=
    ne_closing_of_startsExpression hStart hClosing
  have hMore :
      moreExpressions (expression d) ((t₁ :: s).length + 1)
          ⟨t₁ :: s, z⟩ =
        .ok es ⟨t₂ :: u :: r, z⟩ :=
    hOthers _ (by simp only [List.length_cons]; omega)
  rw [List.cons_append] at hFirst
  simp only [Parse.expressionList, bind_apply, List.cons_append,
    peek_apply, hNotClosing, if_false, advance_apply, hFirst,
    rounds_apply, hMore, expect_apply rfl, pure_apply]

/- An array takes one level more than its elements. -/
theorem ReadsAt.array
    {opening closing : Token}
    {es : List Node}
    (hOpening : opening.kind = .lbracket)
    (hElements :
      ∀ {d : Nat} {t : Token} {r : List Token} {z : Token},
        levels ≤ d →
          expressionList (expression d) closing.kind
              ⟨t :: (ts ++ closing :: r), z⟩ =
            .ok es ⟨closing :: r, z⟩)
    (hClosing : closing.kind = .rbracket) :
    ReadsAt (levels + 1) (.array opening es)
      (opening :: (ts ++ [closing])) := by
  refine of_firstPart
    ⟨opening, _, rfl, by rw [hOpening]; decide⟩ ?_
  intro d u r z hLevels
  exact ⟨closing,
    firstPart_array hOpening hClosing (hElements hLevels)⟩

------------------------------------------------------------
-- Hashes
------------------------------------------------------------

/- A key and a value, each read within a number of levels. -/
def PairReadsAt
    (levels : Nat)
    (p : Node × Node)
    (ts : List Token) : Prop :=
  ∃ ks colon vs,
    ts = ks ++ colon :: vs ∧
      colon.kind = .colon ∧
      ReadsAt levels p.1 ks ∧
      ReadsAt levels p.2 vs

theorem PairReadsAt.opens
    {p : Node × Node}
    (h : PairReadsAt levels p ts) :
    ∃ t rest, ts = t :: rest ∧ t.kind.StartsExpression := by
  rcases h with ⟨ks, colon, vs, rfl, -, hKey, -⟩
  rcases hKey.opens with ⟨t, rest, rfl, hStart⟩
  exact ⟨t, _, rfl, hStart⟩

/- Several pairs up to a closing brace. -/
theorem Separated.hashPairs
    {p : Node × Node}
    {ps : List (Node × Node)}
    (h : Separated (PairReadsAt levels) p ps ts)
    (hLevels : levels ≤ d)
    (hRounds : ts.length < n)
    (hClosing : u.kind = .rbrace) :
    ∃ t',
      Parse.hashPairs (expression d) n
          ⟨t :: (ts ++ u :: r), z⟩ =
        .ok (p :: ps) ⟨t' :: u :: r, z⟩ := by
  induction h generalizing n t with
  | last hPart =>
      rcases hPart with ⟨ks, colon, vs, rfl, hColon, hKey, hValue⟩
      have hSome := hKey.length_pos
      rw [List.length_append, List.length_cons] at hRounds
      obtain ⟨n, rfl⟩ : ∃ m, n = m + 2 := ⟨n - 2, by omega⟩
      rw [List.append_assoc, List.cons_append]
      exact hashPairs_last hKey.opens (hKey.run hLevels) hColon
        (hValue.run hLevels) hClosing
  | more hPart hComma _ ih =>
      rcases hPart with ⟨ks, colon, vs, rfl, hColon, hKey, hValue⟩
      simp only [List.length_append, List.length_cons]
        at hRounds
      obtain ⟨n, rfl⟩ : ∃ m, n = m + 1 := ⟨n - 1, by omega⟩
      simp only [List.append_assoc, List.cons_append]
      exact hashPairs_more hKey.opens (hKey.run hLevels) hColon
        (hValue.run hLevels) hComma (ih (by omega))

/- A hash takes one level more than its keys and values. -/
theorem ReadsAt.hash
    {opening closing : Token}
    {ps : List (Node × Node)}
    (hOpening : opening.kind = .lbrace)
    (hPairs :
      ∀ {d n : Nat} {t : Token} {r : List Token} {z : Token},
        levels ≤ d → ts.length < n →
          ∃ t',
            hashPairs (expression d) n
                ⟨t :: (ts ++ closing :: r), z⟩ =
              .ok ps ⟨t' :: closing :: r, z⟩)
    (hClosing : closing.kind = .rbrace) :
    ReadsAt (levels + 1) (.hash opening ps)
      (opening :: (ts ++ [closing])) := by
  refine of_firstPart
    ⟨opening, _, rfl, by rw [hOpening]; decide⟩ ?_
  intro d u r z hLevels
  exact ⟨closing,
    firstPart_hash hOpening hClosing (hPairs hLevels)⟩

end Parse

------------------------------------------------------------
-- Texts
------------------------------------------------------------

/- A text that is a single expression. -/
theorem parseWithin_of_readsAt
    {levels limit : Nat}
    {source : String}
    {e : Node}
    (h : Parse.ReadsAt levels e (bodyTokens source))
    (hLimit : levels ≤ limit) :
    ∃ first,
      parseWithin limit source =
        .ok (.program [.exprStmt first e]) := by
  rcases TokenStream.ofText_eq source with
    ⟨stop, hStream, hStop, hReal⟩
  rcases h.opens with ⟨first, rest, hTokens, hStart⟩
  rcases h.run (r := []) (z := stop) hLimit
      (Parse.Separates.of_kind hStop (by decide)) with ⟨t, hRun⟩
  rw [hTokens] at hStream hRun
  have hFirst : first.kind ≠ .eof :=
    hReal first (by rw [hTokens]; exact List.mem_cons_self)
  have hSemicolon : stop.kind ≠ .semicolon := by
    rw [hStop]
    decide
  have hCount :
      (tokens source).length = (rest ++ [stop]).length + 1 :=
    congrArg (List.length ∘ TokenStream.pending) hStream
  refine ⟨first, parseWithin_eq_ok.mpr ⟨⟨[stop], stop⟩, ?_⟩⟩
  rw [List.cons_append] at hStream hRun
  rw [hCount, hStream]
  simp only [Parse.programStatements, Parse.bind_apply,
    Parse.current_apply, hFirst, if_false,
    Parse.statement_of_startsExpression hStart,
    Parse.expressionStatement, hRun,
    Parse.acceptOptional_apply_of_ne hSemicolon,
    Parse.advance_apply, hStop, if_true, Parse.pure_apply]

end Monkey
