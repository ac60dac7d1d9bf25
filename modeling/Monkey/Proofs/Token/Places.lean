import Monkey.Proofs.Token.EndOfText

/-
  The places of tokens.

  A cursor only moves forward, and every token but the last one
  takes a character.  So each token of a text stands after the
  one before it, and no token occurs twice.

  Main declarations:
    * `Earlier`
    * `tokens_earlier`
    * `tokens_nodup`
-/

namespace Monkey

------------------------------------------------------------
-- Places
------------------------------------------------------------

/- One line and column is before another one. -/
def Earlier (p q : Nat × Nat) : Prop :=
  p.1 < q.1 ∨ p.1 = q.1 ∧ p.2 < q.2

/- One line and column is before another one, or the same. -/
def NotLater (p q : Nat × Nat) : Prop :=
  p.1 < q.1 ∨ p.1 = q.1 ∧ p.2 ≤ q.2

section

variable {p q r : Nat × Nat}

theorem NotLater.refl
    (p : Nat × Nat) :
    NotLater p p :=
  .inr ⟨rfl, Nat.le_refl _⟩

theorem NotLater.trans
    (h : NotLater p q)
    (h' : NotLater q r) :
    NotLater p r := by
  unfold NotLater at *
  omega

theorem Earlier.notLater
    (h : Earlier p q) :
    NotLater p q := by
  unfold Earlier at h
  unfold NotLater
  omega

theorem Earlier.of_notLater
    (h : Earlier p q)
    (h' : NotLater q r) :
    Earlier p r := by
  unfold Earlier NotLater at *
  omega

theorem not_earlier_self
    (p : Nat × Nat) :
    ¬ Earlier p p := by
  unfold Earlier
  omega

end

/- Where a token starts. -/
def Token.place (t : Token) : Nat × Nat :=
  (t.line, t.column)

------------------------------------------------------------
-- Moving a Cursor
------------------------------------------------------------

namespace Cursor

/- Where the next character is. -/
def place (cur : Cursor) : Nat × Nat :=
  (cur.line, cur.column)

theorem step_earlier
    {cur : Cursor}
    (hRest : cur.rest ≠ []) :
    Earlier cur.place cur.step.place := by
  unfold step
  split
  · next hNil => exact absurd hNil hRest
  · split
    · exact .inl (Nat.lt_succ_self _)
    · exact .inr ⟨rfl, Nat.lt_succ_self _⟩

theorem skip_notLater
    (n : Nat)
    (cur : Cursor) :
    NotLater cur.place (cur.skip n).place := by
  induction n generalizing cur with
  | zero => exact .refl _
  | succ n ih =>
      unfold skip
      split
      · exact .refl _
      · next c rest hRest =>
          have hStep : Earlier cur.place cur.step.place :=
            step_earlier (by simp [hRest])
          exact hStep.notLater.trans (ih cur.step)

/- Moving over a character gets to a later place. -/
theorem skip_earlier
    {n : Nat}
    {cur : Cursor}
    (hShorter :
      (cur.skip n).rest.length < cur.rest.length) :
    Earlier cur.place (cur.skip n).place := by
  cases n with
  | zero => exact absurd hShorter (Nat.lt_irrefl _)
  | succ n =>
      unfold skip at hShorter ⊢
      split at hShorter
      · exact absurd hShorter (Nat.lt_irrefl _)
      · next c rest hRest =>
          have hStep : Earlier cur.place cur.step.place :=
            step_earlier (by simp [hRest])
          exact hStep.of_notLater (skip_notLater n cur.step)

/- At the end of a text a cursor does not move. -/
theorem skip_of_rest_nil
    {cur : Cursor}
    (hRest : cur.rest = [])
    (n : Nat) :
    cur.skip n = cur := by
  cases n with
  | zero => rfl
  | succ n => simp only [skip, hRest]

theorem skip_skip
    (n k : Nat)
    (cur : Cursor) :
    (cur.skip n).skip k = cur.skip (n + k) := by
  induction n generalizing cur with
  | zero => rw [Nat.zero_add]; rfl
  | succ n ih =>
      cases hRest : cur.rest with
      | nil =>
          simp only [skip_of_rest_nil hRest]
      | cons c rest =>
          rw [Nat.succ_add]
          simp only [skip, hRest]
          exact ih cur.step

theorem takeQuoted_skip
    (cur : Cursor) :
    ∃ n, cur.takeQuoted.2 = cur.skip n := by
  refine
    ⟨1 + (((cur.skip 1).rest.takeWhile (· != '"')).length + 1),
      ?_⟩
  rw [← skip_skip, ← skip_skip]
  rfl

------------------------------------------------------------
-- Reading Tokens
------------------------------------------------------------

/- A token starts where the cursor is, which then moves over its
   spelling. -/
theorem tokenHere_place
    (cur : Cursor) :
    cur.tokenHere.1.place = cur.place ∧
      ∃ n, cur.tokenHere.2 = cur.skip n := by
  unfold tokenHere
  split
  · exact ⟨rfl, _, rfl⟩
  · exact ⟨rfl, _, rfl⟩
  · exact ⟨rfl, _, rfl⟩
  · split
    · exact ⟨rfl, _, rfl⟩
    · split
      · exact ⟨rfl, cur.takeQuoted_skip⟩
      · split
        · exact ⟨rfl, _, rfl⟩
        · split
          · exact ⟨rfl, _, rfl⟩
          · exact ⟨rfl, _, rfl⟩

/- The next token is not before the cursor and, unless the text
   ends with it, before where the cursor then is. -/
theorem nextToken_place
    (cur : Cursor) :
    NotLater cur.place cur.nextToken.1.place ∧
      (cur.nextToken.1.kind ≠ .eof →
        Earlier cur.nextToken.1.place
          cur.nextToken.2.place) := by
  rcases cur.skipBlanks.tokenHere_place with ⟨hPlace, n, hAfter⟩
  unfold nextToken
  rw [hPlace]
  refine ⟨skip_notLater _ cur, fun hKind => ?_⟩
  have hRest : cur.skipBlanks.rest ≠ [] :=
    fun hNil => hKind (tokenHere_eof hNil)
  have hShorter := tokenHere_shorter hRest
  rw [hAfter] at hShorter ⊢
  exact skip_earlier hShorter

theorem tokensWithin_earlier
    (n : Nat)
    (cur : Cursor) :
    (∀ t ∈ (cur.tokensWithin n).1,
        NotLater cur.place t.place) ∧
      (cur.tokensWithin n).1.Pairwise fun t u =>
        Earlier t.place u.place := by
  induction n generalizing cur with
  | zero => exact ⟨nofun, .nil⟩
  | succ n ih =>
      rcases cur.nextToken_place with ⟨hFirst, hAfter⟩
      by_cases hKind : cur.nextToken.1.kind = .eof
      · have hTokens :
            (cur.tokensWithin (n + 1)).1 =
              [cur.nextToken.1] := by
          simp [tokensWithin, hKind]
        rw [hTokens]
        exact ⟨List.forall_mem_singleton.mpr hFirst,
          List.pairwise_singleton _ _⟩
      · have hTokens :
            (cur.tokensWithin (n + 1)).1 =
              cur.nextToken.1 ::
                (cur.nextToken.2.tokensWithin n).1 := by
          simp [tokensWithin, hKind]
        rcases ih cur.nextToken.2 with ⟨hMore, hPairwise⟩
        have hLater :
            ∀ t ∈ (cur.nextToken.2.tokensWithin n).1,
              Earlier cur.nextToken.1.place t.place :=
          fun t hMem => (hAfter hKind).of_notLater (hMore t hMem)
        rw [hTokens]
        refine ⟨List.forall_mem_cons.mpr ⟨hFirst, ?_⟩,
          List.pairwise_cons.mpr ⟨hLater, hPairwise⟩⟩
        exact fun t hMem => hFirst.trans (hLater t hMem).notLater

end Cursor

------------------------------------------------------------
-- Texts
------------------------------------------------------------

/- Of two tokens of a text, the first one starts earlier. -/
theorem tokens_earlier
    (source : String) :
    (tokens source).Pairwise fun t u =>
      Earlier t.place u.place :=
  (Cursor.tokensWithin_earlier _ _).2

/- No token occurs twice in a text. -/
theorem tokens_nodup
    (source : String) :
    (tokens source).Nodup := by
  refine (tokens_earlier source).imp ?_
  rintro t u hEarlier rfl
  exact not_earlier_self _ hEarlier

end Monkey
