import Monkey.Parse.Stream

/-
  The end of the token sequence of a text.

  Every token but the one of kind `eof` takes a character, so
  listing the tokens of a text gets to its end.

  Main declarations:
    * `Cursor.nextToken_shorter`
    * `tokens_eq_bodyTokens_append`
    * `TokenStream.ofText_eq`
-/

namespace Monkey

------------------------------------------------------------
-- Moving a Cursor
------------------------------------------------------------

namespace Cursor

@[simp] theorem step_rest
    (cur : Cursor) :
    cur.step.rest = cur.rest.tail := by
  unfold step
  split
  · next hRest => simp [hRest]
  · next c rest hRest => split <;> simp [hRest]

@[simp] theorem skip_rest
    (n : Nat)
    (cur : Cursor) :
    (cur.skip n).rest = cur.rest.drop n := by
  induction n generalizing cur with
  | zero => rfl
  | succ n ih =>
      unfold skip
      split
      · next hRest => simp [hRest]
      · next c rest hRest => simp [ih, hRest]

theorem takeQuoted_rest
    (cur : Cursor) :
    ∃ n, cur.takeQuoted.2.rest = cur.rest.drop (n + 1) := by
  refine ⟨(cur.rest.tail.takeWhile (· != '"')).length + 1, ?_⟩
  simp only [takeQuoted, skip_rest, List.drop_drop]
  congr 1
  rw [List.drop_one]
  omega

------------------------------------------------------------
-- One Token
------------------------------------------------------------

/- A token that starts at a character takes at least that
   character. -/
theorem tokenHere_shorter
    {cur : Cursor}
    (hRest : cur.rest ≠ []) :
    cur.tokenHere.2.rest.length < cur.rest.length := by
  have hLength : 0 < cur.rest.length :=
    List.length_pos_iff.mpr hRest
  have hDrop :
      ∀ n, 0 < n →
        (cur.rest.drop n).length < cur.rest.length := by
    intro n hn
    rw [List.length_drop]
    omega
  have hRun :
      ∀ (p : Char → Bool) (c : Char) (rest : List Char),
        cur.rest = c :: rest → p c = true →
          0 < (cur.rest.takeWhile p).length := by
    intro p c rest hCons hp
    simp [hCons, hp]
  unfold tokenHere
  split
  · next hNil => exact absurd hNil hRest
  · simpa [takeToken] using hDrop 2 (by omega)
  · simpa [takeToken] using hDrop 2 (by omega)
  · next c rest _ _ hCons =>
      split
      · simpa [takeToken] using hDrop 1 (by omega)
      · split
        · rcases cur.takeQuoted_rest with ⟨n, hQuoted⟩
          simpa [hQuoted] using hDrop (n + 1) (by omega)
        · split
          · next hLetter =>
              simpa only [takeToken, skip_rest] using
                hDrop _ (hRun isLetter c rest hCons hLetter)
          · split
            · next hDigit =>
                simpa only [takeToken, skip_rest] using
                  hDrop _ (hRun isDigit c rest hCons hDigit)
            · simpa [takeToken] using hDrop 1 (by omega)

/- At the end of the text there is an `eof` token. -/
theorem tokenHere_eof
    {cur : Cursor}
    (hRest : cur.rest = []) :
    cur.tokenHere.1.kind = .eof := by
  unfold tokenHere
  rw [hRest]
  rfl

/- Every token takes a character, unless it is `eof`. -/
theorem nextToken_shorter
    {cur : Cursor}
    (hKind : cur.nextToken.1.kind ≠ .eof) :
    cur.nextToken.2.rest.length < cur.rest.length := by
  have hRest : cur.skipBlanks.rest ≠ [] :=
    fun hNil => hKind (tokenHere_eof hNil)
  have hBlanks :
      cur.skipBlanks.rest.length ≤ cur.rest.length := by
    simp [skipBlanks]
  exact Nat.lt_of_lt_of_le (tokenHere_shorter hRest) hBlanks

/- The end is the last token that is listed. -/
theorem tokensWithin_succ_of_eof
    {cur : Cursor}
    {count : Nat}
    (hKind : cur.nextToken.1.kind = .eof) :
    cur.tokensWithin (count + 1) =
      ([cur.nextToken.1], cur.nextToken.2) := by
  simp [tokensWithin, hKind]

/- Any other token is followed by more. -/
theorem tokensWithin_succ
    {cur : Cursor}
    {count : Nat}
    (hKind : cur.nextToken.1.kind ≠ .eof) :
    cur.tokensWithin (count + 1) =
      (cur.nextToken.1 ::
          (cur.nextToken.2.tokensWithin count).1,
        (cur.nextToken.2.tokensWithin count).2) := by
  simp [tokensWithin, hKind]

/- Listing tokens ends with the first `eof` token. -/
theorem tokensWithin_ends
    {n : Nat}
    (cur : Cursor)
    (hEnough : cur.rest.length < n) :
    ∃ ts stop,
      (cur.tokensWithin n).1 = ts ++ [stop] ∧
        stop.kind = .eof ∧ ∀ t ∈ ts, t.kind ≠ .eof := by
  induction n generalizing cur with
  | zero => omega
  | succ n ih =>
      by_cases hKind : cur.nextToken.1.kind = .eof
      · refine ⟨[], cur.nextToken.1, ?_, hKind, by simp⟩
        simp [tokensWithin, hKind]
      · have hShorter := nextToken_shorter hKind
        rcases ih cur.nextToken.2 (by omega) with
          ⟨ts, stop, hTokens, hStop, hBody⟩
        refine ⟨cur.nextToken.1 :: ts, stop, ?_, hStop, ?_⟩
        · simp [tokensWithin, hKind, hTokens]
        · simpa [hKind] using hBody

end Cursor

------------------------------------------------------------
-- All Tokens
------------------------------------------------------------

/- The tokens of a text before its end. -/
def bodyTokens (source : String) : List Token :=
  (tokens source).dropLast

/- A text has a single `eof` token, and that is its last. -/
theorem tokens_eq_bodyTokens_append
    (source : String) :
    ∃ stop,
      tokens source = bodyTokens source ++ [stop] ∧
        stop.kind = .eof ∧
        ∀ t ∈ bodyTokens source, t.kind ≠ .eof := by
  rcases Cursor.tokensWithin_ends
      (.ofText source) (Nat.lt_succ_self _) with
    ⟨ts, stop, hTokens, hStop, hBody⟩
  have hSource : tokens source = ts ++ [stop] := hTokens
  have hBodyTokens : bodyTokens source = ts := by
    rw [bodyTokens, hSource, List.dropLast_concat]
  rw [hBodyTokens]
  exact ⟨stop, hSource, hStop, hBody⟩

/- The stream of a text has that token at its end, and shows it
   when there are no more. -/
theorem TokenStream.ofText_eq
    (source : String) :
    ∃ stop : Token,
      TokenStream.ofText source =
          ⟨bodyTokens source ++ [stop], stop⟩ ∧
        stop.kind = .eof ∧
        ∀ t ∈ bodyTokens source, t.kind ≠ .eof := by
  rcases tokens_eq_bodyTokens_append source with
    ⟨stop, hTokens, hStop, hBody⟩
  refine ⟨stop, ?_, hStop, hBody⟩
  simp [TokenStream.ofText, hTokens]

end Monkey
