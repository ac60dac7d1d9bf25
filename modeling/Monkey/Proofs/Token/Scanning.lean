import Monkey.Proofs.Token.Respelling

/-
  Reading tokens from the front of a text.

  `Scans cs ts rest` says that the characters `cs` are read as
  the tokens `ts`, up to the characters `rest`.  All characters
  that follow are at hand in it, so that a longest token is never
  cut in two.  It speaks of tokens by their kinds and texts,
  since the same characters are read alike in every place.

  Main declarations:
    * `Scans`
    * `bodyTokens_of_scans`
    * `bodyTokens_append`
-/

namespace Monkey

------------------------------------------------------------
-- Scanning
------------------------------------------------------------

/- The tokens that are read from characters up to others. -/
inductive Scans :
    List Char → List Token → List Char → Prop
  | done
      {cs : List Char} :
      Scans cs [] cs
  | blank
      {c : Char}
      {cs rest : List Char}
      {ts : List Token}
      (hBlank : isBlank c = true)
      (hMore : Scans cs ts rest) :
      Scans (c :: cs) ts rest
  | token
      {t : Token}
      {cs rest : List Char}
      {ts : List Token}
      (hToken : t.WellFormed)
      (hApart : t.kind.Apart cs)
      (hMore : Scans cs ts rest) :
      Scans (spelling t.kind t.literal.toList ++ cs) (t :: ts)
        rest

namespace Scans

variable {cs mid rest : List Char}
variable {ts us : List Token}

theorem trans
    (h : Scans cs ts mid)
    (h' : Scans mid us rest) :
    Scans cs (ts ++ us) rest := by
  induction h with
  | done => exact h'
  | blank hBlank _ ih => exact .blank hBlank (ih h')
  | token hToken hApart _ ih =>
      exact .token hToken hApart (ih h')

/- Blanks are passed over. -/
theorem blanks
    {blanks : List Char}
    (hBlanks : ∀ c ∈ blanks, isBlank c = true)
    (h : Scans cs ts rest) :
    Scans (blanks ++ cs) ts rest := by
  induction blanks with
  | nil => exact h
  | cons c blanks ih =>
      rcases List.forall_mem_cons.mp hBlanks with
        ⟨hFirst, hMore⟩
      exact .blank hFirst (ih hMore)

end Scans

------------------------------------------------------------
-- The Same Characters in Another Place
------------------------------------------------------------

namespace Cursor

variable {cur cur' : Cursor}

theorem tokenHere_of_rest
    (hRest : cur'.rest = cur.rest) :
    cur.tokenHere.1.Alike cur'.tokenHere.1 ∧
      cur'.tokenHere.2.rest = cur.tokenHere.2.rest := by
  unfold tokenHere
  rw [hRest]
  have hTake :
      ∀ kind size,
        (cur.takeToken kind size).1.Alike
            (cur'.takeToken kind size).1 ∧
          (cur'.takeToken kind size).2.rest =
            (cur.takeToken kind size).2.rest := by
    intro kind size
    simp [takeToken, Token.Alike, hRest]
  have hQuoted :
      cur'.takeQuoted.1 = cur.takeQuoted.1 ∧
        cur'.takeQuoted.2.rest = cur.takeQuoted.2.rest := by
    simp [takeQuoted, hRest]
  split
  · exact hTake _ _
  · exact hTake _ _
  · exact hTake _ _
  · split
    · exact hTake _ _
    · split
      · exact ⟨⟨rfl, hQuoted.1.symm⟩, hQuoted.2⟩
      · split
        · exact hTake _ _
        · split
          · exact hTake _ _
          · exact hTake _ _

/- Blanks before a token do not matter either. -/
theorem nextToken_of_rest
    (hRest :
      cur'.rest.dropWhile isBlank =
        cur.rest.dropWhile isBlank) :
    cur.nextToken.1.Alike cur'.nextToken.1 ∧
      cur'.nextToken.2.rest = cur.nextToken.2.rest := by
  refine tokenHere_of_rest ?_
  rw [skipBlanks_rest, skipBlanks_rest, hRest]

theorem tokensWithin_of_rest
    {n n' : Nat}
    (hRest :
      cur'.rest.dropWhile isBlank =
        cur.rest.dropWhile isBlank)
    (hEnough : cur.rest.length < n)
    (hEnough' : cur'.rest.length < n') :
    List.Forall₂ Token.Alike (cur.tokensWithin n).1
      (cur'.tokensWithin n').1 := by
  induction n generalizing cur cur' n' with
  | zero => exact absurd hEnough (Nat.not_lt_zero _)
  | succ n ih =>
      obtain ⟨m, rfl⟩ : ∃ m, n' = m + 1 :=
        ⟨n' - 1, by omega⟩
      rcases nextToken_of_rest hRest with ⟨hAlike, hAfter⟩
      by_cases hKind : cur.nextToken.1.kind = .eof
      · have hKind' : cur'.nextToken.1.kind = .eof :=
          hAlike.1 ▸ hKind
        simp only [tokensWithin, hKind, hKind', if_true]
        exact .cons hAlike .nil
      · have hKind' : cur'.nextToken.1.kind ≠ .eof :=
          hAlike.1 ▸ hKind
        have hShorter := nextToken_shorter hKind
        have hShorter' := nextToken_shorter hKind'
        simp only [tokensWithin, hKind, hKind', if_false]
        exact .cons hAlike
          (ih (by rw [hAfter]) (by omega) (by omega))

/- What was scanned is read, and then what is left. -/
theorem tokensWithin_of_scans
    (cur : Cursor)
    {n : Nat}
    {cs rest : List Char}
    {ts : List Token}
    (h : Scans cs ts rest)
    (hRest :
      cur.rest.dropWhile isBlank = cs.dropWhile isBlank)
    (hEnough : cur.rest.length < n) :
    ∃ us, ∃ after : Cursor, ∃ m,
      (cur.tokensWithin n).1 =
          us ++ (after.tokensWithin m).1 ∧
        List.Forall₂ Token.Alike ts us ∧
        after.rest.dropWhile isBlank =
          rest.dropWhile isBlank ∧
        after.rest.length < m := by
  induction h generalizing cur n with
  | done => exact ⟨[], cur, n, rfl, .nil, hRest, hEnough⟩
  | blank hBlank _ ih =>
      rw [List.dropWhile_cons_of_pos hBlank] at hRest
      exact ih cur hRest hEnough
  | @token t cs rest ts hToken hApart _ ih =>
      have hSkipped :
          cur.skipBlanks.rest =
            spelling t.kind t.literal.toList ++ cs := by
        rcases hToken.opens with ⟨c, more, hFirst, hBlank⟩
        rw [skipBlanks_rest, hRest, hFirst]
        simp [hBlank]
      rcases hToken.tokenHere_eq hApart hSkipped with
        ⟨hKind, hLiteral, hAfter⟩
      rw [String.ofList_toList] at hLiteral
      change cur.nextToken.1.kind = _ at hKind
      change cur.nextToken.2.rest = _ at hAfter
      have hReal : cur.nextToken.1.kind ≠ .eof :=
        hKind ▸ hToken.kind_ne_eof
      have hShorter := nextToken_shorter hReal
      obtain ⟨m, rfl⟩ : ∃ m, n = m + 1 := ⟨n - 1, by omega⟩
      rcases ih cur.nextToken.2 (n := m) (by rw [hAfter])
          (by omega) with
        ⟨us, after, k, hTokens, hAlike, hEnd, hLast⟩
      refine ⟨cur.nextToken.1 :: us, after, k, ?_,
        .cons ⟨hKind.symm, hLiteral.symm⟩ hAlike, hEnd, hLast⟩
      simp [tokensWithin, hReal, hTokens]

end Cursor

/- A text is read as the tokens that were scanned from the whole
   of it. -/
theorem bodyTokens_of_scans
    {source : String}
    {ts : List Token}
    (h : Scans source.toList ts []) :
    List.Forall₂ Token.Alike ts (bodyTokens source) := by
  rcases Cursor.tokensWithin_of_scans (.ofText source) h rfl
      (Nat.lt_succ_self _) with
    ⟨us, after, m, hTokens, hAlike, hRest, hEnough⟩
  have hEnd : after.nextToken.1.kind = .eof := by
    refine Cursor.tokenHere_eof ?_
    rw [Cursor.skipBlanks_rest, hRest]
    rfl
  obtain ⟨k, rfl⟩ : ∃ k, m = k + 1 := ⟨m - 1, by omega⟩
  have hBody : bodyTokens source = us := by
    change (Cursor.tokensWithin _ _).1.dropLast = us
    rw [hTokens]
    simp [Cursor.tokensWithin, hEnd]
  rw [hBody]
  exact hAlike

------------------------------------------------------------
-- Texts One After Another
------------------------------------------------------------

namespace TokenKind

/- A mark that does not begin an operator of two stands
   apart. -/
theorem apart_of_mark
    {c : Char}
    {kind : TokenKind}
    {following : List Char}
    (hMark : ofMark? c = some kind)
    (hSingle :
      c = '=' ∨ c = '!' → following.head? ≠ some '=') :
    kind.Apart following := by
  intro d hHead
  have hNot : c = '=' ∨ c = '!' → (d == '=') = false := by
    intro hBegins
    rw [beq_eq_false_iff_ne]
    rintro rfl
    exact hSingle hBegins hHead
  unfold ofMark? at hMark
  split at hMark
  case h_1 => cases hMark; exact hNot (.inl rfl)
  case h_4 => cases hMark; exact hNot (.inr rfl)
  all_goals cases hMark
  all_goals rfl

end TokenKind

namespace Cursor

variable {cur : Cursor}

/-
  A token and the place after it are read off the characters
  here: its spelling comes first, and what follows is no part of
  it.  Only a string without its closing quote is not spelled
  here.
-/
def Yields
    (cur : Cursor)
    (r : Token × Cursor) : Prop :=
  r.1.kind = .string ∧ r.2.rest = [] ∨
    cur.rest =
        spelling r.1.kind r.1.literal.toList ++ r.2.rest ∧
      r.1.kind.Apart r.2.rest

/- A token of known length that is no string. -/
theorem yields_takeToken
    {kind : TokenKind}
    {size : Nat}
    (hKind : kind ≠ .string)
    (hApart : kind.Apart (cur.rest.drop size)) :
    cur.Yields (cur.takeToken kind size) := by
  refine .inr ⟨?_, ?_⟩
  · simp [takeToken, spelling, hKind]
  · simpa [takeToken] using hApart

/- A run of a class of characters stops before another one. -/
theorem head_of_dropWhile
    (p : Char → Bool)
    (cs : List Char) :
    ∀ c ∈ (cs.dropWhile p).head?, p c = false := by
  intro c hHead
  have hFirst := List.head?_dropWhile_not p cs
  rw [hHead] at hFirst
  exact hFirst

theorem yields_takeQuoted
    {more : List Char}
    (hRest : cur.rest = '"' :: more) :
    cur.Yields
      ({ kind := .string
         literal := cur.takeQuoted.1
         line := cur.line
         column := cur.column },
        cur.takeQuoted.2) := by
  cases hAfter : more.dropWhile (· != '"') with
  | nil =>
      refine .inl ⟨rfl, ?_⟩
      simp [takeQuoted, hRest, (take_drop_run _ more).2, hAfter]
  | cons d after =>
      have hClosing : d = '"' := by
        have hFirst := head_of_dropWhile (· != '"') more
        rw [hAfter] at hFirst
        simpa using hFirst d rfl
      have hSplit :
          more.takeWhile (· != '"') ++
            more.dropWhile (· != '"') = more :=
        List.takeWhile_append_dropWhile
      rw [hAfter, hClosing] at hSplit
      refine .inr ⟨?_, fun _ _ => rfl⟩
      simp [takeQuoted, hRest, spelling,
        (take_drop_run _ more).2, hAfter, hSplit]

/- Whatever starts here is read off the characters here. -/
theorem yields_tokenHere
    {c : Char}
    {more : List Char}
    (hRest : cur.rest = c :: more) :
    cur.Yields cur.tokenHere := by
  unfold tokenHere
  split
  · next hNil =>
      rw [hRest] at hNil
      cases hNil
  · exact yields_takeToken nofun fun _ _ => rfl
  · exact yields_takeToken nofun fun _ _ => rfl
  · next d tail hNotEq hNotBang hCons =>
      rw [hRest] at hCons
      cases hCons
      split
      · next kind hMark =>
          refine yields_takeToken
            (TokenKind.ofMark_ne hMark).1 ?_
          rw [hRest]
          refine TokenKind.apart_of_mark hMark ?_
          rintro (rfl | rfl) hHead
          · cases more with
            | nil => cases hHead
            | cons d more =>
                cases hHead
                exact hNotEq more rfl rfl
          · cases more with
            | nil => cases hHead
            | cons d more =>
                cases hHead
                exact hNotBang more rfl rfl
      · split
        · next hQuote =>
            subst hQuote
            exact yields_takeQuoted hRest
        · split
          · refine yields_takeToken
              (TokenKind.ofWord_ne _).1 ?_
            rw [(take_drop_run _ cur.rest).2]
            intro d hHead
            rw [TokenKind.absorbs_ofWord]
            exact head_of_dropWhile isLetter _ d hHead
          · split
            · refine yields_takeToken nofun ?_
              rw [(take_drop_run _ cur.rest).2]
              exact head_of_dropWhile isDigit _
            · exact yields_takeToken nofun fun _ _ => rfl

/- The next token is spelled after blanks, and stands apart from
   what follows, if anything does. -/
theorem scans_nextToken
    (hReal : cur.nextToken.1.kind ≠ .eof)
    (more : List Char)
    (hApart :
      cur.nextToken.2.rest = [] →
        cur.nextToken.1.kind ≠ .string ∧
          cur.nextToken.1.kind.Apart more) :
    Scans (cur.rest ++ more) [cur.nextToken.1]
      (cur.nextToken.2.rest ++ more) := by
  have hToken := nextToken_wellFormed hReal
  have hSplit :
      cur.rest.takeWhile isBlank ++ cur.skipBlanks.rest =
        cur.rest := by
    rw [skipBlanks_rest]
    exact List.takeWhile_append_dropWhile
  rw [← hSplit, List.append_assoc]
  refine Scans.blanks
    (List.all_eq_true.mp List.all_takeWhile) ?_
  cases hRest : cur.skipBlanks.rest with
  | nil => exact absurd (tokenHere_eof hRest) hReal
  | cons c rest =>
      rw [← hRest]
      rcases yields_tokenHere hRest with
        ⟨hString, hNil⟩ | ⟨hSpelled, hFollowing⟩
      · exact absurd hString (hApart hNil).1
      · rw [hSpelled, List.append_assoc]
        refine .token hToken ?_ .done
        cases hAfter : cur.nextToken.2.rest with
        | nil =>
            change cur.skipBlanks.tokenHere.2.rest = _ at hAfter
            rw [hAfter]
            exact (hApart hAfter).2
        | cons d after =>
            change cur.skipBlanks.tokenHere.2.rest = _ at hAfter
            rw [hAfter] at hFollowing ⊢
            exact hFollowing

/- More than one token means that the first is not the end. -/
theorem tokensWithin_cons
    {n : Nat}
    {t u : Token}
    {us : List Token}
    (hTokens : (cur.tokensWithin n).1 = t :: u :: us) :
    cur.nextToken.1 = t ∧ cur.nextToken.1.kind ≠ .eof ∧
      ∃ m, (cur.nextToken.2.tokensWithin m).1 = u :: us := by
  cases n with
  | zero => cases hTokens
  | succ n =>
      by_cases hKind : cur.nextToken.1.kind = .eof
      · simp [tokensWithin, hKind] at hTokens
      · simp only [tokensWithin, hKind, if_false,
          List.cons.injEq] at hTokens
        exact ⟨hTokens.1, hKind, n, hTokens.2⟩

/- Where just the end is read, there are only blanks. -/
theorem blanks_of_tokensWithin
    {n : Nat}
    {stop : Token}
    (hStop : stop.kind = .eof)
    (hTokens : (cur.tokensWithin n).1 = [stop]) :
    ∀ c ∈ cur.rest, isBlank c = true := by
  have hKind : cur.nextToken.1.kind = .eof := by
    cases n with
    | zero => cases hTokens
    | succ n =>
        by_contra hKind
        simp only [tokensWithin, hKind, if_false,
          List.cons.injEq] at hTokens
        exact hKind (hTokens.1 ▸ hStop)
  have hNone : cur.rest.dropWhile isBlank = [] := by
    rw [← skipBlanks_rest]
    exact skipBlanks_rest_of_eof hKind
  have hAll : cur.rest.takeWhile isBlank = cur.rest := by
    have hSplit :
        cur.rest.takeWhile isBlank ++
          cur.rest.dropWhile isBlank = cur.rest :=
      List.takeWhile_append_dropWhile
    rwa [hNone, List.append_nil] at hSplit
  rw [← hAll]
  exact List.all_eq_true.mp List.all_takeWhile

/- Tokens that end with a semicolon are scanned wherever a text
   goes on. -/
theorem scans_of_tokensWithin
    {n : Nat}
    {ts : List Token}
    {semicolon stop : Token}
    (hSemicolon : semicolon.kind = .semicolon)
    (hStop : stop.kind = .eof)
    (hTokens :
      (cur.tokensWithin n).1 = ts ++ [semicolon, stop])
    (more : List Char) :
    Scans (cur.rest ++ more) (ts ++ [semicolon]) more := by
  induction ts generalizing n cur with
  | nil =>
      rcases tokensWithin_cons hTokens with
        ⟨hFirst, hReal, m, hAfter⟩
      have hLast :=
        scans_nextToken hReal more fun _ => by
          rw [hFirst, hSemicolon]
          exact ⟨nofun, fun _ _ => rfl⟩
      rw [hFirst] at hLast
      exact hLast.trans
        (Scans.blanks (blanks_of_tokensWithin hStop hAfter)
          .done)
  | cons t ts ih =>
      obtain ⟨u, v, us, hMore⟩ :
          ∃ u v us, ts ++ [semicolon, stop] = u :: v :: us := by
        rcases ts with _ | ⟨a, _ | ⟨b, rest⟩⟩ <;>
          exact ⟨_, _, _, rfl⟩
      rw [List.cons_append, hMore] at hTokens
      rcases tokensWithin_cons hTokens with
        ⟨hFirst, hReal, m, hAfter⟩
      have hNonempty : cur.nextToken.2.rest ≠ [] := by
        intro hNil
        refine (tokensWithin_cons hAfter).2.1 ?_
        exact nextToken_of_blanks (by simp [hNil])
      rw [← hMore] at hAfter
      have hHere :=
        scans_nextToken hReal more fun hNil =>
          absurd hNil hNonempty
      rw [hFirst] at hHere
      exact hHere.trans (ih hAfter)

end Cursor

/-
  After a text that ends with a semicolon, another one is read
  as it is alone.
-/
theorem tokens_append
    {source : String}
    {ts : List Token}
    {semicolon : Token}
    (hTokens : bodyTokens source = ts ++ [semicolon])
    (hSemicolon : semicolon.kind = .semicolon)
    (more : String) :
    List.Forall₂ Token.Alike (bodyTokens source ++ tokens more)
      (tokens (source ++ more)) := by
  rcases tokens_eq_bodyTokens_append source with
    ⟨stop, hSource, hStop, -⟩
  have hAll : tokens source = ts ++ [semicolon, stop] := by
    rw [hSource, hTokens]
    simp
  have hScans :=
    Cursor.scans_of_tokensWithin hSemicolon hStop hAll
      more.toList
  have hRest :
      (Cursor.ofText (source ++ more)).rest =
        (Cursor.ofText source).rest ++ more.toList :=
    String.toList_append
  rcases Cursor.tokensWithin_of_scans
      (.ofText (source ++ more)) hScans (by rw [hRest])
      (Nat.lt_succ_self _) with
    ⟨us, after, m, hJoined, hAlike, hAfter, hEnough⟩
  change List.Forall₂ _ _ (Cursor.tokensWithin _ _).1
  rw [hJoined, hTokens]
  exact List.rel_append hAlike
    (Cursor.tokensWithin_of_rest hAfter
      (Nat.lt_succ_self (Cursor.ofText more).rest.length)
      hEnough)

/- The same without the end of the text. -/
theorem bodyTokens_append
    {source : String}
    {ts : List Token}
    {semicolon : Token}
    (hTokens : bodyTokens source = ts ++ [semicolon])
    (hSemicolon : semicolon.kind = .semicolon)
    (more : String) :
    List.Forall₂ Token.Alike
      (bodyTokens source ++ bodyTokens more)
      (bodyTokens (source ++ more)) := by
  have hAlike := tokens_append hTokens hSemicolon more
  rcases tokens_eq_bodyTokens_append more with
    ⟨stop, hMore, -⟩
  have hBody :
      bodyTokens source ++ bodyTokens more =
        (bodyTokens source ++ tokens more).dropLast := by
    rw [hMore, ← List.append_assoc, List.dropLast_concat]
  change List.Forall₂ _ _ (tokens (source ++ more)).dropLast
  rw [hBody, List.dropLast_eq_take, List.dropLast_eq_take,
    ← hAlike.length_eq]
  exact List.forall₂_take _ hAlike

end Monkey
