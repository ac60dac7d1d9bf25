import Monkey.Proofs.Token.Positions
import Monkey.Proofs.Token.Respelling

/-
  Tokens written with blanks between them.

  Any lexemes can be written down one after another with blanks
  before each.  Where there is a blank between neighbours, the
  text is read as just these tokens, each at the place where its
  spelling starts, and then the end.

  Main declarations:
    * `Piece`
    * `placedTokens`
    * `tokens_pieces`
-/

namespace Monkey

------------------------------------------------------------
-- Pieces of Text
------------------------------------------------------------

/- A token to write down, by its kind and text, with the blanks
   to write before it. -/
structure Piece where
  gap : List Char
  kind : TokenKind
  literal : String
  blank : ∀ c ∈ gap, isBlank c = true
  lexeme : Lexeme kind literal.toList

namespace Piece

/- How the token itself is written. -/
def spelled (p : Piece) : List Char :=
  spelling p.kind p.literal.toList

/- The blanks and then the token. -/
def text (p : Piece) : List Char :=
  p.gap ++ p.spelled

/- The token, with its spelling right after a text. -/
def tokenAfter
    (p : Piece)
    (before : List Char) :
    Token where
  kind := p.kind
  literal := p.literal
  line := lineAfter before
  column := columnAfter before

end Piece

/- The tokens of pieces that are written after a text. -/
def placedTokens : List Char → List Piece → List Token
  | _, [] => []
  | before, p :: rest =>
      p.tokenAfter (before ++ p.gap) ::
        placedTokens (before ++ p.text) rest

/- The end of a text as a token. -/
def endToken (text : List Char) : Token where
  kind := .eof
  literal := ""
  line := lineAfter text
  column := columnAfter text

------------------------------------------------------------
-- Blanks
------------------------------------------------------------

/- A blank is part of no token. -/
theorem isApart_of_isBlank
    {c : Char}
    (h : isBlank c = true) :
    isApart c = true := by
  have hCode := code_of_isBlank h
  have hLetter : isLetter c = false := by
    rw [Bool.eq_false_iff]
    intro hLetter
    have hLetterCode := code_of_isLetter hLetter
    omega
  have hDigit : isDigit c = false := by
    rw [Bool.eq_false_iff]
    intro hDigit
    have hDigitCode := code_of_isDigit hDigit
    omega
  have hEquals : c ≠ '=' := by
    rintro rfl
    cases h
  simp [isApart, hLetter, hDigit, hEquals]

/- Blanks before something else are all that is skipped. -/
theorem dropWhile_blanks
    {blanks cs : List Char}
    (hBlanks : ∀ c ∈ blanks, isBlank c = true)
    (hFirst : ∀ c ∈ cs.head?, isBlank c = false) :
    (blanks ++ cs).dropWhile isBlank = cs := by
  rw [List.dropWhile_append_of_pos hBlanks]
  cases cs with
  | nil => rfl
  | cons c cs =>
      rw [List.dropWhile_cons_of_neg]
      rw [hFirst c rfl]
      exact Bool.false_ne_true

/- The first character of a spelling is no blank. -/
theorem Lexeme.head_spelling
    {kind : TokenKind}
    {cs : List Char}
    (h : Lexeme kind cs)
    (following : List Char) :
    ∀ c ∈ (spelling kind cs ++ following).head?,
      isBlank c = false := by
  rcases h.opens with ⟨d, more, hFirst, hBlank⟩
  intro c hHead
  rw [hFirst] at hHead
  cases hHead
  exact hBlank

/- Before pieces with blanks every token ends. -/
theorem apart_pieces
    {ps : List Piece}
    {ending : List Char}
    (hGaps : ∀ p ∈ ps, p.gap ≠ [])
    (hEnding : ∀ c ∈ ending, isBlank c = true)
    (kind : TokenKind) :
    kind.Apart (ps.flatMap Piece.text ++ ending) := by
  intro c hHead
  apply kind.absorbs_of_isApart
  apply isApart_of_isBlank
  cases ps with
  | nil => exact hEnding c (List.mem_of_mem_head? hHead)
  | cons p rest =>
      have hGap : p.gap ≠ [] := hGaps p (List.mem_cons_self ..)
      cases hFirst : p.gap with
      | nil => exact absurd hFirst hGap
      | cons d more =>
          simp [Piece.text, hFirst] at hHead
          subst hHead
          exact p.blank d (by simp [hFirst])

------------------------------------------------------------
-- Reading Pieces
------------------------------------------------------------

namespace Cursor

variable {cur : Cursor}
variable {before : List Char}

/- Blanks before a cursor's next token are passed over. -/
theorem skipBlanks_of_gap
    {gap more : List Char}
    (hCounts : cur.Counts)
    (hRead : cur.consumed.reverse = before)
    (hRest : cur.rest = gap ++ more)
    (hGap : ∀ c ∈ gap, isBlank c = true)
    (hMore : ∀ c ∈ more.head?, isBlank c = false) :
    cur.skipBlanks.Counts ∧
      cur.skipBlanks.consumed.reverse = before ++ gap ∧
      cur.skipBlanks.rest = more := by
  have hAfter : cur.skipBlanks.rest = more := by
    rw [skipBlanks_rest, hRest, dropWhile_blanks hGap hMore]
  refine ⟨hCounts.skip _, read_of_rest ?_ hAfter, hAfter⟩
  unfold skipBlanks
  rw [skip_source, source, hRead, hRest, List.append_assoc]

/- A piece is read as its token. -/
theorem nextToken_piece
    {p : Piece}
    {more : List Char}
    (hCounts : cur.Counts)
    (hRead : cur.consumed.reverse = before)
    (hRest : cur.rest = p.text ++ more)
    (hApart : p.kind.Apart more) :
    cur.nextToken.1 = p.tokenAfter (before ++ p.gap) ∧
      cur.nextToken.2.Counts ∧
      cur.nextToken.2.consumed.reverse = before ++ p.text ∧
      cur.nextToken.2.rest = more := by
  have hGapRest : cur.rest = p.gap ++ (p.spelled ++ more) := by
    rw [hRest, Piece.text, List.append_assoc]
  rcases skipBlanks_of_gap hCounts hRead hGapRest p.blank
      (p.lexeme.head_spelling more) with
    ⟨hHere, hGapRead, hSkipped⟩
  rcases p.lexeme.tokenHere_eq hApart hSkipped with
    ⟨hKind, hLiteral, hAfter⟩
  rcases tokenHere_counts hHere with
    ⟨hLine, hColumn, hBehind, hSource⟩
  rw [hGapRead] at hLine hColumn
  rw [String.ofList_toList] at hLiteral
  refine ⟨?_, hBehind, read_of_rest ?_ hAfter, hAfter⟩
  · unfold nextToken
    rw [Piece.tokenAfter, ← hKind, ← hLiteral, ← hLine,
      ← hColumn]
  · unfold nextToken
    rw [hSource, source, hGapRead, hSkipped, Piece.text]
    simp

/- Where there are only blanks left, the end is read. -/
theorem nextToken_ending
    (hCounts : cur.Counts)
    (hRead : cur.consumed.reverse = before)
    (hEnding : ∀ c ∈ cur.rest, isBlank c = true) :
    cur.nextToken.1 = endToken (before ++ cur.rest) := by
  have hNothing : cur.rest = cur.rest ++ [] := by simp
  rcases skipBlanks_of_gap hCounts hRead hNothing hEnding nofun
    with ⟨hHere, hAll, hEnd⟩
  rcases tokenHere_counts hHere with ⟨hLine, hColumn, -, -⟩
  rw [hAll] at hLine hColumn
  have hToken :
      cur.skipBlanks.tokenHere.1.kind = .eof ∧
        cur.skipBlanks.tokenHere.1.literal = "" := by
    unfold tokenHere
    rw [hEnd]
    simp [takeToken, hEnd]
  unfold nextToken endToken
  rw [← hToken.1, ← hToken.2, ← hLine, ← hColumn]

/- Pieces are read as their tokens, and then the end. -/
theorem tokensWithin_pieces
    {n : Nat}
    {ps : List Piece}
    {ending : List Char}
    (hCounts : cur.Counts)
    (hRead : cur.consumed.reverse = before)
    (hRest : cur.rest = ps.flatMap Piece.text ++ ending)
    (hGaps : ∀ p ∈ ps.tail, p.gap ≠ [])
    (hEnding : ∀ c ∈ ending, isBlank c = true)
    (hEnough : cur.rest.length < n) :
    (cur.tokensWithin n).1 =
      placedTokens before ps ++
        [endToken (before ++ cur.rest)] := by
  induction ps generalizing cur before n with
  | nil =>
      have hBlank : ∀ c ∈ cur.rest, isBlank c = true := by
        rw [hRest]
        exact hEnding
      have hEnd := nextToken_ending hCounts hRead hBlank
      obtain ⟨n, rfl⟩ : ∃ m, n = m + 1 := ⟨n - 1, by omega⟩
      have hKind : cur.nextToken.1.kind = .eof := by
        rw [hEnd]
        rfl
      simp only [tokensWithin, hKind, if_true]
      rw [hEnd]
      rfl
  | cons p rest ih =>
      have hText :
          cur.rest =
            p.text ++ (rest.flatMap Piece.text ++ ending) := by
        rw [hRest, List.flatMap_cons, List.append_assoc]
      rcases nextToken_piece hCounts hRead hText
          (apart_pieces hGaps hEnding p.kind) with
        ⟨hToken, hBehind, hReadOn, hMore⟩
      have hKind : cur.nextToken.1.kind ≠ .eof := by
        rw [hToken]
        exact p.lexeme.kind_ne_eof
      have hShorter := nextToken_shorter hKind
      obtain ⟨n, rfl⟩ : ∃ m, n = m + 1 := ⟨n - 1, by omega⟩
      have hTokens :=
        ih (n := n) hBehind hReadOn hMore
          (fun q hMem => hGaps q (List.mem_of_mem_tail hMem))
          (by omega)
      have hAll :
          before ++ p.text ++ cur.nextToken.2.rest =
            before ++ cur.rest := by
        rw [hMore, hText, List.append_assoc]
      rw [hAll] at hTokens
      simp only [tokensWithin, hKind, if_false, placedTokens]
      rw [hTokens, hToken, List.cons_append]

end Cursor

------------------------------------------------------------
-- Texts
------------------------------------------------------------

/-
  A text of pieces with blanks between neighbours is read as the
  tokens of the pieces, in this order, and then the end.  Each
  token stands where its spelling was written, and the end where
  the text is over.
-/
theorem tokens_pieces
    (ps : List Piece)
    (ending : List Char)
    (hGaps : ∀ p ∈ ps.tail, p.gap ≠ [])
    (hEnding : ∀ c ∈ ending, isBlank c = true) :
    tokens (String.ofList (ps.flatMap Piece.text ++ ending)) =
      placedTokens [] ps ++
        [endToken (ps.flatMap Piece.text ++ ending)] := by
  have hRest :
      (Cursor.ofText
          (String.ofList
            (ps.flatMap Piece.text ++ ending))).rest =
        ps.flatMap Piece.text ++ ending :=
    String.toList_ofList
  have hStart := Cursor.counts_ofText
    (String.ofList (ps.flatMap Piece.text ++ ending))
  have hTokens :=
    Cursor.tokensWithin_pieces hStart List.reverse_nil hRest
      hGaps hEnding (Nat.lt_add_one _)
  rw [List.nil_append] at hTokens
  unfold tokens Cursor.takeTokens
  rw [hTokens, hRest]

/- The string goes on over a line break, the blank after `let` is
   a no-break space, and `@` is illegal. -/
theorem tokens_pieces_lines :
    tokens "let\u00a0s \"a\n\x7d\"\n @ " =
      [⟨.letWord, "let", 1, 1⟩, ⟨.ident, "s", 1, 5⟩,
        ⟨.string, "a\n\x7d", 1, 7⟩, ⟨.illegal, "@", 3, 2⟩,
        ⟨.eof, "", 3, 4⟩] := by
  let word : Piece :=
    { gap := []
      kind := .letWord
      literal := "let"
      blank := nofun
      lexeme :=
        @Lexeme.word ['l', 'e', 't'] nofun
          (List.all_eq_true.mp rfl) }
  let name : Piece :=
    { gap := ['\u00a0']
      kind := .ident
      literal := "s"
      blank := List.all_eq_true.mp rfl
      lexeme :=
        @Lexeme.word ['s'] nofun (List.all_eq_true.mp rfl) }
  let content : Piece :=
    { gap := [' ']
      kind := .string
      literal := "a\n\x7d"
      blank := List.all_eq_true.mp rfl
      lexeme := .string (by decide) }
  let sign : Piece :=
    { gap := ['\n', ' ']
      kind := .illegal
      literal := "@"
      blank := List.all_eq_true.mp rfl
      lexeme :=
        .illegal (c := '@') rfl rfl (by decide) rfl rfl }
  have hText :
      String.ofList
          ([word, name, content, sign].flatMap Piece.text ++
            [' ']) =
        "let\u00a0s \"a\n\x7d\"\n @ " := by
    decide +kernel
  have hGaps :
      ∀ p ∈ [word, name, content, sign].tail, p.gap ≠ [] := by
    simp [name, content, sign]
  have hEnding : ∀ c ∈ [' '], isBlank c = true :=
    List.all_eq_true.mp rfl
  rw [← hText, tokens_pieces _ _ hGaps hEnding]
  decide +kernel

end Monkey
