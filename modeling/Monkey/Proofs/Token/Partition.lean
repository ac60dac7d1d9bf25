import Monkey.Proofs.Token.Scanning

/-
  A text as its tokens and the blanks between them.

  `Partition` divides characters into blanks and spellings of
  tokens, none of which could be longer.  Every text has such a
  partition, the one into its own tokens, and no other one.

  Main declarations:
    * `Partition`
    * `Partition.alike`
    * `tokens_partition`
-/

namespace Monkey

------------------------------------------------------------
-- Partitions
------------------------------------------------------------

/-
  Characters are divided into blanks and tokens.  Each token is a
  lexeme that is spelled in full and does not go on in what
  follows.  Only a string at the very end may lack its closing
  quote.
-/
inductive Partition : List Char → List Token → Prop
  | blanks
      {blanks : List Char}
      (hBlanks : ∀ c ∈ blanks, isBlank c = true) :
      Partition blanks []
  | token
      {blanks rest : List Char}
      {t : Token}
      {ts : List Token}
      (hBlanks : ∀ c ∈ blanks, isBlank c = true)
      (hToken : t.WellFormed)
      (hApart : t.kind.Apart rest)
      (hMore : Partition rest ts) :
      Partition
        (blanks ++ (spelling t.kind t.literal.toList ++ rest))
        (t :: ts)
  | unclosed
      {blanks : List Char}
      {t : Token}
      (hBlanks : ∀ c ∈ blanks, isBlank c = true)
      (hString : t.kind = .string)
      (hQuote : '"' ∉ t.literal.toList) :
      Partition (blanks ++ '"' :: t.literal.toList) [t]

/- There are no tokens in no characters. -/
theorem Partition.eq_nil
    {cs : List Char}
    {ts : List Token}
    (h : Partition cs ts)
    (hNone : cs = []) :
    ts = [] := by
  cases h with
  | blanks => rfl
  | token _ hToken =>
      rcases hToken.opens with ⟨c, more, hFirst, -⟩
      simp [hFirst] at hNone
  | unclosed => simp at hNone

------------------------------------------------------------
-- Strings
------------------------------------------------------------

/- There is no quote in the text of a string. -/
theorem Lexeme.quote_not_mem
    {kind : TokenKind}
    {cs : List Char}
    (h : Lexeme kind cs)
    (hKind : kind = .string) :
    '"' ∉ cs := by
  cases h with
  | string hQuote => exact hQuote
  | mark hMark =>
      exact absurd hKind (TokenKind.ofMark_ne hMark).1
  | word => exact absurd hKind (TokenKind.ofWord_ne _).1
  | _ => cases hKind

namespace Cursor

variable {cur : Cursor}
variable {c : Char}
variable {more : List Char}

/- A token of kind `string` is a quoted text. -/
theorem tokenHere_of_string
    (hRest : cur.rest = c :: more)
    (hKind : cur.tokenHere.1.kind = .string) :
    c = '"' ∧
      cur.tokenHere.1.literal = cur.takeQuoted.1 ∧
      cur.tokenHere.2 = cur.takeQuoted.2 := by
  unfold tokenHere at hKind ⊢
  split at hKind
  · next hNil =>
      rw [hRest] at hNil
      cases hNil
  · cases hKind
  · cases hKind
  · next hCons =>
      rw [hRest] at hCons
      cases hCons
      split at hKind
      · next hMark =>
          exact absurd hKind (TokenKind.ofMark_ne hMark).1
      · next hMark =>
          split at hKind
          · next hQuote =>
              subst hQuote
              simp
          · split at hKind
            · exact absurd hKind (TokenKind.ofWord_ne _).1
            · split at hKind <;> cases hKind

/- A quote that is not closed opens a string up to the end of
   the text. -/
theorem tokenHere_of_unclosed
    {content : String}
    (hQuote : '"' ∉ content.toList)
    (hRest : cur.rest = '"' :: content.toList) :
    cur.tokenHere.1.kind = .string ∧
      cur.tokenHere.1.literal = content ∧
      cur.tokenHere.2.rest = [] := by
  have hRun : ∀ c ∈ content.toList, (c != '"') = true := by
    intro c hMem
    rw [bne_iff_ne]
    rintro rfl
    exact hQuote hMem
  have hContent :
      (content.toList ++ []).takeWhile (· != '"') =
        content.toList :=
    takeWhile_of_end hRun nofun
  rw [List.append_nil] at hContent
  rw [tokenHere_of_cons hRest (by simp)]
  simp [takeQuoted, hRest, hContent, TokenKind.ofMark?]

/- A quoted text ends at its closing quote or, without one, where
   the text does. -/
theorem takeQuoted_divides
    (hRest : cur.rest = '"' :: more) :
    cur.rest =
        '"' :: (cur.takeQuoted.1.toList ++
          '"' :: cur.takeQuoted.2.rest) ∨
      cur.takeQuoted.2.rest = [] ∧
        cur.rest = '"' :: cur.takeQuoted.1.toList := by
  have hSplit :
      more.takeWhile (· != '"') ++ more.dropWhile (· != '"') =
        more :=
    List.takeWhile_append_dropWhile
  have hContent :
      cur.takeQuoted.1.toList = more.takeWhile (· != '"') := by
    simp [takeQuoted, hRest]
  have hAfter :
      cur.takeQuoted.2.rest =
        (more.dropWhile (· != '"')).tail := by
    simp [takeQuoted, hRest, (take_drop_run _ more).2]
  rw [hContent, hAfter, hRest]
  cases hEnd : more.dropWhile (· != '"') with
  | nil =>
      rw [hEnd, List.append_nil] at hSplit
      exact .inr ⟨rfl, by rw [hSplit]⟩
  | cons d after =>
      have hClosing := head_of_dropWhile (· != '"') more d
      simp only [hEnd, List.head?_cons, Option.mem_some_iff,
        bne_eq_false_iff_eq, forall_const] at hClosing
      rw [hEnd, hClosing] at hSplit
      exact .inl (by rw [List.tail_cons, hSplit])

/- What starts here is spelled in full and ends before what
   follows, or is a string without its closing quote. -/
theorem tokenHere_divides
    (hRest : cur.rest = c :: more) :
    (cur.rest =
          spelling cur.tokenHere.1.kind
              cur.tokenHere.1.literal.toList ++
            cur.tokenHere.2.rest ∧
        cur.tokenHere.1.kind.Apart cur.tokenHere.2.rest) ∨
      cur.tokenHere.1.kind = .string ∧
        cur.tokenHere.2.rest = [] ∧
        cur.rest = '"' :: cur.tokenHere.1.literal.toList := by
  rcases yields_tokenHere hRest with ⟨hString, hEnd⟩ | hSpelled
  · rcases tokenHere_of_string hRest hString with
      ⟨rfl, hLiteral, hAfter⟩
    rw [hAfter] at hEnd
    rw [hString, hLiteral, hAfter]
    rcases takeQuoted_divides hRest with hClosed | hOpen
    · refine .inl ⟨?_, fun _ _ => rfl⟩
      rw [hClosed]
      simp [spelling]
    · exact .inr ⟨rfl, hOpen⟩
  · exact .inl hSpelled

------------------------------------------------------------
-- Every Text Has a Partition
------------------------------------------------------------

/- A token that is not the end is followed by others. -/
theorem tokensWithin_of_real
    {n : Nat}
    (hReal : cur.nextToken.1.kind ≠ .eof) :
    (cur.tokensWithin (n + 1)).1 =
      cur.nextToken.1 :: (cur.nextToken.2.tokensWithin n).1 := by
  rw [tokensWithin_succ hReal]

/- The end is the last token. -/
theorem tokensWithin_of_end
    {n : Nat}
    (hEnd : cur.nextToken.1.kind = .eof) :
    (cur.tokensWithin (n + 1)).1 = [cur.nextToken.1] := by
  rw [tokensWithin_succ_of_eof hEnd]

/- The tokens that are read divide the characters that are
   left. -/
theorem partition_tokensWithin
    {n : Nat}
    (cur : Cursor)
    (hEnough : cur.rest.length < n) :
    ∃ ts stop,
      (cur.tokensWithin n).1 = ts ++ [stop] ∧
        stop.kind = .eof ∧ Partition cur.rest ts := by
  induction n generalizing cur with
  | zero => exact absurd hEnough (Nat.not_lt_zero _)
  | succ n ih =>
      have hSplit :
          cur.rest.takeWhile isBlank ++ cur.skipBlanks.rest =
            cur.rest := by
        rw [skipBlanks_rest]
        exact List.takeWhile_append_dropWhile
      have hBlanks :
          ∀ c ∈ cur.rest.takeWhile isBlank, isBlank c = true :=
        List.all_eq_true.mp List.all_takeWhile
      by_cases hKind : cur.nextToken.1.kind = .eof
      · have hTokens :
            (cur.tokensWithin (n + 1)).1 =
              [] ++ [cur.nextToken.1] :=
          tokensWithin_of_end hKind
        refine ⟨[], cur.nextToken.1, hTokens, hKind, ?_⟩
        exact .blanks (blanks_of_tokensWithin hKind hTokens)
      · have hShorter := nextToken_shorter hKind
        rcases ih cur.nextToken.2 (by omega) with
          ⟨ts, stop, hTokens, hStop, hMore⟩
        refine ⟨cur.nextToken.1 :: ts, stop, ?_, hStop, ?_⟩
        · rw [tokensWithin_of_real hKind, hTokens,
            List.cons_append]
        · cases hRest : cur.skipBlanks.rest with
          | nil => exact absurd (tokenHere_eof hRest) hKind
          | cons c rest =>
              rw [← hSplit]
              rcases tokenHere_divides hRest with
                ⟨hSpelled, hApart⟩ | ⟨hString, hEnd, hOpen⟩
              · rw [hSpelled]
                exact .token hBlanks
                  (nextToken_wellFormed hKind) hApart hMore
              · have hQuote :
                    '"' ∉ cur.nextToken.1.literal.toList :=
                  (nextToken_wellFormed hKind).quote_not_mem
                    hString
                rw [hOpen, hMore.eq_nil hEnd]
                exact .unclosed hBlanks hString hQuote

end Cursor

------------------------------------------------------------
-- No Text Has Another Partition
------------------------------------------------------------

/- Where characters have a partition, its tokens are read. -/
theorem Partition.tokensWithin
    {cs : List Char}
    {ts : List Token}
    (h : Partition cs ts)
    {cur : Cursor}
    {n : Nat}
    (hRest : cur.rest = cs)
    (hEnough : cur.rest.length < n) :
    ∃ us stop,
      (cur.tokensWithin n).1 = us ++ [stop] ∧
        List.Forall₂ Token.Alike ts us := by
  obtain ⟨n, rfl⟩ : ∃ m, n = m + 1 := ⟨n - 1, by omega⟩
  induction h generalizing cur n with
  | blanks hBlanks =>
      have hEnd : cur.nextToken.1.kind = .eof :=
        Cursor.nextToken_of_blanks (hRest ▸ hBlanks)
      exact ⟨[], cur.nextToken.1,
        Cursor.tokensWithin_of_end hEnd, .nil⟩
  | @token blanks rest t ts hBlanks hToken hApart _ ih =>
      have hSkipped :
          cur.skipBlanks.rest =
            spelling t.kind t.literal.toList ++ rest := by
        rcases hToken.opens with ⟨c, more, hFirst, hBlank⟩
        rw [Cursor.skipBlanks_rest, hRest, hFirst,
          List.dropWhile_append_of_pos hBlanks]
        simp [hBlank]
      rcases hToken.tokenHere_eq hApart hSkipped with
        ⟨hKind, hLiteral, hAfter⟩
      rw [String.ofList_toList] at hLiteral
      change cur.nextToken.1.kind = _ at hKind
      change cur.nextToken.2.rest = _ at hAfter
      have hReal : cur.nextToken.1.kind ≠ .eof :=
        hKind ▸ hToken.kind_ne_eof
      have hShorter := Cursor.nextToken_shorter hReal
      obtain ⟨n, rfl⟩ : ∃ m, n = m + 1 := ⟨n - 1, by omega⟩
      rcases ih (n := n) hAfter (by omega) with
        ⟨us, stop, hTokens, hAlike⟩
      refine ⟨cur.nextToken.1 :: us, stop, ?_,
        .cons ⟨hKind.symm, hLiteral.symm⟩ hAlike⟩
      rw [Cursor.tokensWithin_of_real hReal, hTokens,
        List.cons_append]
  | @unclosed blanks t hBlanks hString hQuote =>
      have hSkipped :
          cur.skipBlanks.rest = '"' :: t.literal.toList := by
        rw [Cursor.skipBlanks_rest, hRest,
          List.dropWhile_append_of_pos hBlanks]
        rfl
      rcases Cursor.tokenHere_of_unclosed hQuote hSkipped with
        ⟨hKind, hLiteral, hAfter⟩
      change cur.nextToken.1.kind = _ at hKind
      change cur.nextToken.2.rest = _ at hAfter
      have hReal : cur.nextToken.1.kind ≠ .eof := by
        simp [hKind]
      have hShorter := Cursor.nextToken_shorter hReal
      obtain ⟨n, rfl⟩ : ∃ m, n = m + 1 := ⟨n - 1, by omega⟩
      have hEnd : cur.nextToken.2.nextToken.1.kind = .eof :=
        Cursor.nextToken_of_blanks (by simp [hAfter])
      refine ⟨[cur.nextToken.1], cur.nextToken.2.nextToken.1, ?_,
        .cons ⟨hString.trans hKind.symm, hLiteral.symm⟩ .nil⟩
      rw [Cursor.tokensWithin_of_real hReal,
        Cursor.tokensWithin_of_end hEnd]
      rfl

/- A text has no other partition than into its tokens. -/
theorem Partition.alike
    {source : String}
    {ts : List Token}
    (h : Partition source.toList ts) :
    List.Forall₂ Token.Alike ts (bodyTokens source) := by
  let cur : Cursor := .ofText source
  have hRest : cur.rest = source.toList := rfl
  rcases h.tokensWithin hRest (Nat.lt_succ_self _) with
    ⟨us, stop, hTokens, hAlike⟩
  have hBody : bodyTokens source = us := by
    change (Cursor.tokensWithin _ _).1.dropLast = us
    rw [hTokens, List.dropLast_concat]
  rw [hBody]
  exact hAlike

------------------------------------------------------------
-- Kinds of Tokens
------------------------------------------------------------

/- The keywords and their kinds. -/
def TokenKind.keywords : List (String × TokenKind) :=
  [("fn", fnWord), ("let", letWord), ("true", trueWord),
    ("false", falseWord), ("if", ifWord), ("else", elseWord),
    ("return", returnWord)]

/- A mark is no keyword, and not illegal. -/
theorem TokenKind.ofMark_ne_word
    {c : Char}
    {kind : TokenKind}
    (h : ofMark? c = some kind) :
    kind ≠ .illegal ∧ ∀ entry ∈ keywords, kind ≠ entry.2 := by
  unfold ofMark? at h
  split at h
  all_goals cases h
  all_goals decide

/- A word is of the kind of a keyword if it is that keyword. -/
theorem TokenKind.ofWord_eq_iff
    {entry : String × TokenKind}
    (hEntry : entry ∈ keywords)
    (word : String) :
    ofWord word = entry.2 ↔ word = entry.1 := by
  constructor
  · intro h
    unfold ofWord at h
    simp only [keywords, List.mem_cons, List.not_mem_nil,
      or_false] at hEntry
    rcases hEntry with rfl | rfl | rfl | rfl | rfl | rfl | rfl
    all_goals
      repeat' split at h
      all_goals first | assumption | cases h
  · rintro rfl
    revert entry
    decide

/- Keywords consist of letters. -/
theorem TokenKind.isLetter_of_mem_keywords :
    ∀ entry ∈ keywords,
      entry.1.toList.all isLetter = true := by
  decide

/- Nothing but a word has the kind of a keyword. -/
theorem TokenKind.keywords_ne :
    ∀ entry ∈ keywords,
      ∀ kind ∈ [illegal, int, string, eq, notEq],
        kind ≠ entry.2 := by
  decide

namespace Lexeme

variable {kind : TokenKind}
variable {cs : List Char}

/- Letters that are no string are a word. -/
theorem kind_of_letters
    (h : Lexeme kind cs)
    (hKind : kind ≠ .string)
    (hLetters : ∀ c ∈ cs, isLetter c = true) :
    kind = .ofWord (String.ofList cs) := by
  cases h with
  | word => rfl
  | string => exact absurd rfl hKind
  | eq | notEq => cases hLetters _ (List.mem_cons_self ..)
  | mark hMark =>
      have hLetter := hLetters _ (List.mem_singleton.mpr rfl)
      rw [(mark_only hMark).2.1] at hLetter
      cases hLetter
  | illegal _ _ _ hLetter =>
      rw [hLetters _ (List.mem_singleton.mpr rfl)] at hLetter
      cases hLetter
  | @number cs hNonempty hDigits =>
      rcases cs with _ | ⟨c, rest⟩
      · exact absurd rfl hNonempty
      · have hDigit := hDigits c (List.mem_cons_self ..)
        have hLetter := hLetters c (List.mem_cons_self ..)
        rw [isLetter_of_isDigit hDigit] at hLetter
        cases hLetter

/- Only a word is of the kind of a keyword. -/
theorem kind_of_keyword
    {entry : String × TokenKind}
    (h : Lexeme kind cs)
    (hEntry : entry ∈ TokenKind.keywords)
    (hKind : kind = entry.2) :
    kind = .ofWord (String.ofList cs) := by
  cases h with
  | word => rfl
  | mark hMark =>
      exact absurd hKind
        ((TokenKind.ofMark_ne_word hMark).2 entry hEntry)
  | _ =>
      exact absurd hKind
        (TokenKind.keywords_ne entry hEntry _ (by decide))

/- A lexeme is illegal only for a character that belongs to no
   other one. -/
theorem illegal_only
    (h : Lexeme kind cs)
    (hKind : kind = .illegal) :
    ∃ c, cs = [c] ∧ isBlank c = false ∧
      TokenKind.ofMark? c = none ∧ c ≠ '"' ∧
      isLetter c = false ∧ isDigit c = false := by
  cases h with
  | illegal hBlank hMark hQuote hLetter hDigit =>
      exact ⟨_, rfl, hBlank, hMark, hQuote, hLetter, hDigit⟩
  | mark hMark =>
      exact absurd hKind (TokenKind.ofMark_ne_word hMark).1
  | word =>
      unfold TokenKind.ofWord at hKind
      repeat' split at hKind
      all_goals cases hKind
  | _ => cases hKind

end Lexeme

namespace Token

variable {t : Token}

/- A token is of the kind of a keyword just if it has its text
   and is no string. -/
theorem WellFormed.kind_eq_iff
    {entry : String × TokenKind}
    (h : t.WellFormed)
    (hEntry : entry ∈ TokenKind.keywords) :
    t.kind = entry.2 ↔
      t.literal = entry.1 ∧ t.kind ≠ .string := by
  have hWord := TokenKind.ofWord_eq_iff hEntry t.literal
  constructor
  · intro hKind
    have hOfWord := h.kind_of_keyword hEntry hKind
    rw [String.ofList_toList] at hOfWord
    refine ⟨hWord.mp (hOfWord.symm.trans hKind), ?_⟩
    rw [hOfWord]
    exact (TokenKind.ofWord_ne _).1
  · rintro ⟨hLiteral, hKind⟩
    have hLetters :
        ∀ c ∈ t.literal.toList, isLetter c = true := by
      rw [hLiteral]
      exact List.all_eq_true.mp
        (TokenKind.isLetter_of_mem_keywords entry hEntry)
    have hOfWord := h.kind_of_letters hKind hLetters
    rw [String.ofList_toList] at hOfWord
    exact hOfWord.trans (hWord.mpr hLiteral)

end Token

------------------------------------------------------------
-- Texts
------------------------------------------------------------

/-
  The tokens of a text end with its only `eof` token.  The others,
  with the blanks between them, are the whole text: they make a
  partition of it, and no other tokens do.  A keyword has the kind
  of its own and nothing else has it, and no character is illegal
  that could begin another token.
-/
theorem tokens_partition
    (source : String) :
    ∃ stop,
      tokens source = bodyTokens source ++ [stop] ∧
        stop.kind = .eof ∧
        (∀ t ∈ bodyTokens source, t.kind ≠ .eof) ∧
        Partition source.toList (bodyTokens source) ∧
        (∀ ts, Partition source.toList ts →
          List.Forall₂ Token.Alike ts (bodyTokens source)) ∧
        ∀ t ∈ bodyTokens source,
          (∀ entry ∈ TokenKind.keywords,
            t.kind = entry.2 ↔
              t.literal = entry.1 ∧ t.kind ≠ .string) ∧
          (t.kind = .illegal →
            ∃ c, t.literal.toList = [c] ∧ isBlank c = false ∧
              TokenKind.ofMark? c = none ∧ c ≠ '"' ∧
              isLetter c = false ∧ isDigit c = false) := by
  rcases tokens_eq_bodyTokens_append source with
    ⟨stop, hTokens, hStop, hBody⟩
  have hPartition :
      Partition source.toList (bodyTokens source) := by
    rcases Cursor.partition_tokensWithin (.ofText source)
        (Nat.lt_succ_self _) with
      ⟨ts, stop', hTokens', -, hPartition⟩
    have hSame : bodyTokens source = ts := by
      change (Cursor.tokensWithin _ _).1.dropLast = ts
      rw [hTokens', List.dropLast_concat]
    rw [hSame]
    exact hPartition
  refine ⟨stop, hTokens, hStop, hBody, hPartition,
    fun _ h => h.alike, fun t hMem => ?_⟩
  have hListed : t ∈ tokens source := by
    rw [hTokens]
    exact List.mem_append_left _ hMem
  have hToken : t.WellFormed :=
    wellFormed_of_mem_tokens hListed (hBody t hMem)
  exact ⟨fun _ hEntry => hToken.kind_eq_iff hEntry,
    hToken.illegal_only⟩

end Monkey
