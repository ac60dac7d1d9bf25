import Mathlib.Data.List.Forall2
import Monkey.Proofs.Token.EndOfText

/-
  Lexing undoes spelling.

  `Lexeme` lists the kinds and texts that the tokens of a text
  have.  Whatever is a lexeme can be written down again: spelled
  between blanks, it is read as a token of the same kind and
  text.  So any such tokens, in any order, are those of a text.

  Main declarations:
    * `Token.Alike`
    * `Lexeme`
    * `wellFormed_of_mem_tokens`
    * `bodyTokens_respell`
-/

namespace Monkey

------------------------------------------------------------
-- Lexemes
------------------------------------------------------------

namespace Token

/- The same kind and text, wherever they stand. -/
def Alike (t u : Token) : Prop :=
  t.kind = u.kind ∧ t.literal = u.literal

theorem Alike.refl
    (t : Token) :
    t.Alike t :=
  ⟨rfl, rfl⟩

theorem Alike.symm
    {t u : Token}
    (h : t.Alike u) :
    u.Alike t :=
  ⟨h.1.symm, h.2.symm⟩

end Token

/- The kinds and texts of tokens other than the end. -/
inductive Lexeme : TokenKind → List Char → Prop
  | eq : Lexeme .eq ['=', '=']
  | notEq : Lexeme .notEq ['!', '=']
  | mark
      {c : Char}
      {kind : TokenKind}
      (hMark : TokenKind.ofMark? c = some kind) :
      Lexeme kind [c]
  | string
      {cs : List Char}
      (hQuote : '"' ∉ cs) :
      Lexeme .string cs
  | word
      {cs : List Char}
      (hNonempty : cs ≠ [])
      (hLetters : ∀ c ∈ cs, isLetter c = true) :
      Lexeme (.ofWord (String.ofList cs)) cs
  | number
      {cs : List Char}
      (hNonempty : cs ≠ [])
      (hDigits : ∀ c ∈ cs, isDigit c = true) :
      Lexeme .int cs
  | illegal
      {c : Char}
      (hBlank : isBlank c = false)
      (hMark : TokenKind.ofMark? c = none)
      (hQuote : c ≠ '"')
      (hLetter : isLetter c = false)
      (hDigit : isDigit c = false) :
      Lexeme .illegal [c]

namespace Token

/- The kind and text of a token can be those of one in a text. -/
def WellFormed (t : Token) : Prop :=
  Lexeme t.kind t.literal.toList

end Token

/- How a lexeme is written: a string between quotes, and anything
   else as it is. -/
def spelling
    (kind : TokenKind)
    (cs : List Char) :
    List Char :=
  if kind = .string then '"' :: (cs ++ ['"']) else cs

/- Tokens written one after another, with a space after each. -/
def respell (ts : List Token) : List Char :=
  ts.flatMap fun t =>
    spelling t.kind t.literal.toList ++ [' ']

namespace TokenKind

/- Whether a character right after a token of a kind is read as
   part of it. -/
def absorbs : TokenKind → Char → Bool
  | assign, c => c == '='
  | bang, c => c == '='
  | int, c => isDigit c
  | ident, c => isLetter c
  | fnWord, c => isLetter c
  | letWord, c => isLetter c
  | trueWord, c => isLetter c
  | falseWord, c => isLetter c
  | ifWord, c => isLetter c
  | elseWord, c => isLetter c
  | returnWord, c => isLetter c
  | _, _ => false

/- Nothing of what follows belongs to a token of a kind. -/
def Apart
    (kind : TokenKind)
    (following : List Char) : Prop :=
  ∀ c ∈ following.head?, kind.absorbs c = false

end TokenKind

------------------------------------------------------------
-- Classes of Characters
------------------------------------------------------------

/- The codes of letters. -/
theorem code_of_isLetter
    {c : Char}
    (h : isLetter c = true) :
    65 ≤ c.toNat ∧ c.toNat ≤ 122 := by
  simp only [isLetter, Bool.or_eq_true, Bool.and_eq_true,
    decide_eq_true_eq, beq_iff_eq] at h
  rcases h with (⟨hLow, hHigh⟩ | ⟨hLow, hHigh⟩) | rfl
  · have hLow : 97 ≤ c.toNat := hLow
    have hHigh : c.toNat ≤ 122 := hHigh
    omega
  · have hLow : 65 ≤ c.toNat := hLow
    have hHigh : c.toNat ≤ 90 := hHigh
    omega
  · decide

/- The codes of digits. -/
theorem code_of_isDigit
    {c : Char}
    (h : isDigit c = true) :
    48 ≤ c.toNat ∧ c.toNat ≤ 57 := by
  simp only [isDigit, Bool.and_eq_true, decide_eq_true_eq]
    at h
  exact h

/- The codes of blanks are not among those. -/
theorem code_of_isBlank
    {c : Char}
    (h : isBlank c = true) :
    c.toNat ≤ 32 ∨ 133 ≤ c.toNat := by
  simp only [isBlank, Bool.or_eq_true, Bool.and_eq_true,
    decide_eq_true_eq, beq_iff_eq] at h
  omega

/- A mark is nothing else. -/
theorem mark_only
    {c : Char}
    {kind : TokenKind}
    (h : TokenKind.ofMark? c = some kind) :
    isBlank c = false ∧ isLetter c = false ∧
      isDigit c = false := by
  unfold TokenKind.ofMark? at h
  split at h <;> first | exact ⟨rfl, rfl, rfl⟩ | cases h

theorem isBlank_of_isLetter
    {c : Char}
    (h : isLetter c = true) :
    isBlank c = false := by
  rw [Bool.eq_false_iff]
  intro hBlank
  have hLetter := code_of_isLetter h
  have hCode := code_of_isBlank hBlank
  omega

theorem isBlank_of_isDigit
    {c : Char}
    (h : isDigit c = true) :
    isBlank c = false := by
  rw [Bool.eq_false_iff]
  intro hBlank
  have hDigit := code_of_isDigit h
  have hCode := code_of_isBlank hBlank
  omega

theorem isLetter_of_isDigit
    {c : Char}
    (h : isDigit c = true) :
    isLetter c = false := by
  rw [Bool.eq_false_iff]
  intro hLetter
  have hDigit := code_of_isDigit h
  have hCode := code_of_isLetter hLetter
  omega

/- No letter is a mark. -/
theorem ofMark_of_isLetter
    {c : Char}
    (h : isLetter c = true) :
    TokenKind.ofMark? c = none := by
  cases hMark : TokenKind.ofMark? c with
  | none => rfl
  | some kind =>
      rw [(mark_only hMark).2.1] at h
      cases h

/- No digit is a mark. -/
theorem ofMark_of_isDigit
    {c : Char}
    (h : isDigit c = true) :
    TokenKind.ofMark? c = none := by
  cases hMark : TokenKind.ofMark? c with
  | none => rfl
  | some kind =>
      rw [(mark_only hMark).2.2] at h
      cases h

------------------------------------------------------------
-- Reading a Lexeme
------------------------------------------------------------

namespace Cursor

/- A token that starts with a character, unless that begins an
   operator of two. -/
theorem tokenHere_of_cons
    {cur : Cursor}
    {c : Char}
    {rest : List Char}
    (hRest : cur.rest = c :: rest)
    (hSingle :
      c = '=' ∨ c = '!' → rest.head? ≠ some '=') :
    cur.tokenHere =
      match TokenKind.ofMark? c with
      | some kind => cur.takeToken kind 1
      | none =>
          if c = '"' then
            ({ kind := .string
               literal := cur.takeQuoted.1
               line := cur.line
               column := cur.column },
              cur.takeQuoted.2)
          else if isLetter c then
            cur.takeToken
              (TokenKind.ofWord
                (String.ofList (cur.rest.takeWhile isLetter)))
              (cur.rest.takeWhile isLetter).length
          else if isDigit c then
            cur.takeToken .int
              (cur.rest.takeWhile isDigit).length
          else
            cur.takeToken .illegal 1 := by
  unfold tokenHere
  split
  · next hNil => rw [hRest] at hNil; cases hNil
  · next tail hEq =>
      rw [hRest] at hEq
      cases hEq
      exact absurd rfl (hSingle (.inl rfl))
  · next tail hEq =>
      rw [hRest] at hEq
      cases hEq
      exact absurd rfl (hSingle (.inr rfl))
  · next d tail _ _ hCons =>
      rw [hRest] at hCons
      cases hCons
      rfl

/- A run of a class of characters, up to another one or the end
   of the text. -/
theorem takeWhile_of_end
    {p : Char → Bool}
    {cs more : List Char}
    (hRun : ∀ c ∈ cs, p c = true)
    (hStop : ∀ c ∈ more.head?, p c = false) :
    (cs ++ more).takeWhile p = cs := by
  rw [List.takeWhile_append_of_pos hRun]
  cases more with
  | nil => simp
  | cons stop more => simp [hStop stop rfl]

/- A quoted text is read up to its closing quote. -/
theorem takeQuoted_eq
    {cur : Cursor}
    {cs more : List Char}
    (hQuote : '"' ∉ cs)
    (hRest : cur.rest = '"' :: (cs ++ '"' :: more)) :
    cur.takeQuoted.1 = String.ofList cs ∧
      cur.takeQuoted.2.rest = more := by
  have hRun : ∀ c ∈ cs, (c != '"') = true := by
    intro c hMem
    rw [bne_iff_ne]
    rintro rfl
    exact hQuote hMem
  have hContent :
      (cs ++ '"' :: more).takeWhile (· != '"') = cs :=
    takeWhile_of_end hRun (by simp)
  simp [takeQuoted, hRest, hContent]

end Cursor

/- A word is no string. -/
theorem TokenKind.ofWord_ne
    (word : String) :
    ofWord word ≠ .string ∧ ofWord word ≠ .eof := by
  unfold ofWord
  repeat' split
  all_goals exact ⟨nofun, nofun⟩

/- A mark is no string, and not the end. -/
theorem TokenKind.ofMark_ne
    {c : Char}
    {kind : TokenKind}
    (h : ofMark? c = some kind) :
    kind ≠ .string ∧ kind ≠ .eof := by
  unfold ofMark? at h
  split at h
  all_goals cases h
  all_goals exact ⟨nofun, nofun⟩

/- A word goes on with letters, whatever its kind. -/
theorem TokenKind.absorbs_ofWord
    (word : String)
    (c : Char) :
    (ofWord word).absorbs c = isLetter c := by
  unfold ofWord
  repeat' split
  all_goals rfl

/- A mark that stands apart does not begin an operator of
   two. -/
theorem TokenKind.Apart.single_of_mark
    {c : Char}
    {kind : TokenKind}
    {following : List Char}
    (h : kind.Apart following)
    (hMark : ofMark? c = some kind) :
    c = '=' ∨ c = '!' → following.head? ≠ some '=' := by
  rintro (rfl | rfl) hHead
  · cases hMark
    cases h _ hHead
  · cases hMark
    cases h _ hHead

/- What is no mark does not begin an operator of two. -/
theorem TokenKind.not_single_of_ofMark
    {c : Char}
    (hMark : ofMark? c = none) :
    ¬ (c = '=' ∨ c = '!') := by
  rintro (rfl | rfl) <;> cases hMark

/- A character that is part of no token but its own. -/
def isApart (c : Char) : Bool :=
  !isLetter c && !isDigit c && c != '='

/- No token goes on with such a character. -/
theorem TokenKind.absorbs_of_isApart
    {c : Char}
    (kind : TokenKind)
    (h : isApart c = true) :
    kind.absorbs c = false := by
  simp only [isApart, Bool.and_eq_true, Bool.not_eq_true',
    bne_iff_ne] at h
  rcases h with ⟨⟨hLetter, hDigit⟩, hEq⟩
  cases kind <;> simp [absorbs, hLetter, hDigit, hEq]

namespace Lexeme

variable {kind : TokenKind}
variable {cs : List Char}

/- A lexeme is not the end of a text. -/
theorem kind_ne_eof
    (h : Lexeme kind cs) :
    kind ≠ .eof := by
  cases h with
  | mark hMark => exact (TokenKind.ofMark_ne hMark).2
  | word => exact (TokenKind.ofWord_ne _).2
  | _ => exact nofun

/- A spelling is not empty and starts with no blank. -/
theorem opens
    (h : Lexeme kind cs) :
    ∃ c rest, spelling kind cs = c :: rest ∧
      isBlank c = false := by
  cases h with
  | eq | notEq => exact ⟨_, _, rfl, rfl⟩
  | string => exact ⟨_, _, if_pos rfl, rfl⟩
  | mark hMark =>
      exact ⟨_, _, if_neg (TokenKind.ofMark_ne hMark).1,
        (mark_only hMark).1⟩
  | illegal hBlank => exact ⟨_, _, rfl, hBlank⟩
  | word hNonempty hLetters =>
      rcases cs with _ | ⟨c, rest⟩
      · exact absurd rfl hNonempty
      · exact ⟨_, _, if_neg (TokenKind.ofWord_ne _).1,
          isBlank_of_isLetter (hLetters c (by simp))⟩
  | number hNonempty hDigits =>
      rcases cs with _ | ⟨c, rest⟩
      · exact absurd rfl hNonempty
      · exact ⟨_, _, rfl,
          isBlank_of_isDigit (hDigits c (by simp))⟩

/- Where a lexeme is written and nothing of what follows belongs
   to it, a token of its kind and text is read. -/
theorem tokenHere_eq
    (h : Lexeme kind cs)
    {cur : Cursor}
    {more : List Char}
    (hApart : kind.Apart more)
    (hRest : cur.rest = spelling kind cs ++ more) :
    cur.tokenHere.1.kind = kind ∧
      cur.tokenHere.1.literal = String.ofList cs ∧
      cur.tokenHere.2.rest = more := by
  cases h with
  | eq =>
      unfold Cursor.tokenHere
      simp [hRest, spelling, Cursor.takeToken]
  | notEq =>
      unfold Cursor.tokenHere
      simp [hRest, spelling, Cursor.takeToken]
  | mark hMark =>
      rw [spelling, if_neg (TokenKind.ofMark_ne hMark).1]
        at hRest
      have hSingle :
          _ = '=' ∨ _ = '!' → more.head? ≠ some '=' :=
        hApart.single_of_mark hMark
      rw [Cursor.tokenHere_of_cons hRest hSingle, hMark]
      simp [Cursor.takeToken, hRest]
  | string hQuote =>
      have hQuoted : cur.rest = '"' :: (cs ++ '"' :: more) := by
        rw [hRest]
        simp [spelling]
      rw [Cursor.tokenHere_of_cons hQuoted (by simp)]
      exact ⟨rfl, Cursor.takeQuoted_eq hQuote hQuoted⟩
  | word hNonempty hLetters =>
      rw [spelling, if_neg (TokenKind.ofWord_ne _).1] at hRest
      have hRun : cur.rest.takeWhile isLetter = cs := by
        rw [hRest]
        refine Cursor.takeWhile_of_end hLetters fun c hc => ?_
        rw [← TokenKind.absorbs_ofWord (String.ofList cs)]
        exact hApart c hc
      rcases cs with _ | ⟨c, rest⟩
      · exact absurd rfl hNonempty
      · have hLetter := hLetters c (by simp)
        have hSingle : ¬ (c = '=' ∨ c = '!') := by
          rintro (rfl | rfl) <;> cases hLetter
        have hQuote : c ≠ '"' := by
          rintro rfl
          cases hLetter
        rw [Cursor.tokenHere_of_cons hRest
            fun h => absurd h hSingle,
          ofMark_of_isLetter hLetter]
        simp only [if_neg hQuote, if_pos hLetter, hRun]
        simp [Cursor.takeToken, hRest]
  | number hNonempty hDigits =>
      have hRun : cur.rest.takeWhile isDigit = cs := by
        rw [hRest]
        exact Cursor.takeWhile_of_end hDigits hApart
      rcases cs with _ | ⟨c, rest⟩
      · exact absurd rfl hNonempty
      · have hDigit := hDigits c (by simp)
        have hSingle : ¬ (c = '=' ∨ c = '!') := by
          rintro (rfl | rfl) <;> cases hDigit
        have hQuote : c ≠ '"' := by
          rintro rfl
          cases hDigit
        have hLetter : ¬ isLetter c = true := by
          rw [isLetter_of_isDigit hDigit]
          exact Bool.false_ne_true
        rw [Cursor.tokenHere_of_cons hRest
            fun h => absurd h hSingle,
          ofMark_of_isDigit hDigit]
        simp only [if_neg hQuote, if_neg hLetter, if_pos hDigit,
          hRun]
        simp [Cursor.takeToken, hRest, spelling]
  | illegal hIllegal hMark hQuote hLetter hDigit =>
      have hSingle : ¬ (_ = '=' ∨ _ = '!') :=
        TokenKind.not_single_of_ofMark hMark
      change cur.rest = _ :: more at hRest
      rw [Cursor.tokenHere_of_cons hRest
          fun h => absurd h hSingle,
        hMark]
      simp [Cursor.takeToken, hRest, hQuote, hLetter, hDigit]

end Lexeme

------------------------------------------------------------
-- Lexemes of a Text
------------------------------------------------------------

namespace Cursor

/- A run of a class of characters and what follows it. -/
theorem take_drop_run
    (p : Char → Bool)
    (cs : List Char) :
    cs.take (cs.takeWhile p).length = cs.takeWhile p ∧
      cs.drop (cs.takeWhile p).length = cs.dropWhile p := by
  have hSplit : cs.takeWhile p ++ cs.dropWhile p = cs :=
    List.takeWhile_append_dropWhile
  constructor
  · calc
      cs.take (cs.takeWhile p).length
      _ = (cs.takeWhile p ++ cs.dropWhile p).take
            (cs.takeWhile p).length := by rw [hSplit]
      _ = cs.takeWhile p := List.take_left
  · calc
      cs.drop (cs.takeWhile p).length
      _ = (cs.takeWhile p ++ cs.dropWhile p).drop
            (cs.takeWhile p).length := by rw [hSplit]
      _ = cs.dropWhile p := List.drop_left

theorem skipBlanks_rest
    (cur : Cursor) :
    cur.skipBlanks.rest = cur.rest.dropWhile isBlank := by
  rw [skipBlanks, skip_rest]
  exact (take_drop_run isBlank cur.rest).2

/- A token that starts at a character that is no blank has a
   lexeme. -/
theorem tokenHere_wellFormed
    {cur : Cursor}
    {c : Char}
    {rest : List Char}
    (hRest : cur.rest = c :: rest)
    (hBlank : isBlank c = false) :
    cur.tokenHere.1.WellFormed := by
  have hRun :
      ∀ p : Char → Bool, p c = true →
        cur.rest.takeWhile p ≠ [] ∧
          ∀ d ∈ cur.rest.takeWhile p, p d = true := by
    intro p hFirst
    refine ⟨by simp [hRest, hFirst], ?_⟩
    exact List.all_eq_true.mp List.all_takeWhile
  unfold Token.WellFormed tokenHere
  split
  · next hNil =>
      rw [hRest] at hNil
      cases hNil
  · next hCons =>
      simpa [takeToken, hCons] using Lexeme.eq
  · next hCons =>
      simpa [takeToken, hCons] using Lexeme.notEq
  · next d tail _ _ hCons =>
      rw [hRest] at hCons
      cases hCons
      split
      · next kind hMark =>
          simpa [takeToken, hRest] using Lexeme.mark hMark
      · next hMark =>
          split
          · have hContent :
                '"' ∉ cur.rest.tail.takeWhile (· != '"') := by
              intro hMem
              have hRun :=
                List.all_eq_true.mp List.all_takeWhile _ hMem
              cases hRun
            simpa [takeQuoted] using Lexeme.string hContent
          · next hQuote =>
              split
              · next hLetter =>
                  rcases hRun isLetter hLetter with
                    ⟨hNonempty, hLetters⟩
                  have hWord := Lexeme.word hNonempty hLetters
                  simpa [takeToken,
                    (take_drop_run _ cur.rest).1] using hWord
              · next hLetter =>
                  split
                  · next hDigit =>
                      rcases hRun isDigit hDigit with
                        ⟨hNonempty, hDigits⟩
                      have hNumber :=
                        Lexeme.number hNonempty hDigits
                      simpa [takeToken,
                        (take_drop_run _ cur.rest).1] using
                        hNumber
                  · next hDigit =>
                      have hIllegal :=
                        Lexeme.illegal hBlank hMark hQuote
                          (Bool.eq_false_iff.mpr hLetter)
                          (Bool.eq_false_iff.mpr hDigit)
                      simpa [takeToken, hRest] using hIllegal

/- The next token has a lexeme, unless the text is over. -/
theorem nextToken_wellFormed
    {cur : Cursor}
    (hKind : cur.nextToken.1.kind ≠ .eof) :
    cur.nextToken.1.WellFormed := by
  unfold nextToken at hKind ⊢
  cases hRest : cur.skipBlanks.rest with
  | nil => exact absurd (tokenHere_eof hRest) hKind
  | cons c rest =>
      have hHead := List.head?_dropWhile_not isBlank cur.rest
      rw [← skipBlanks_rest, hRest] at hHead
      exact tokenHere_wellFormed hRest hHead

/- The end is read only where there are no more than blanks. -/
theorem skipBlanks_rest_of_eof
    {cur : Cursor}
    (hKind : cur.nextToken.1.kind = .eof) :
    cur.skipBlanks.rest = [] := by
  cases hRest : cur.skipBlanks.rest with
  | nil => rfl
  | cons c rest =>
      have hHead := List.head?_dropWhile_not isBlank cur.rest
      rw [← skipBlanks_rest, hRest] at hHead
      exact absurd hKind
        (tokenHere_wellFormed hRest hHead).kind_ne_eof

theorem tokensWithin_wellFormed
    {n : Nat}
    {cur : Cursor}
    {t : Token}
    (hMem : t ∈ (cur.tokensWithin n).1)
    (hKind : t.kind ≠ .eof) :
    t.WellFormed := by
  induction n generalizing cur with
  | zero => cases hMem
  | succ n ih =>
      by_cases hLast : cur.nextToken.1.kind = .eof
      · simp only [tokensWithin, hLast, if_true,
          List.mem_singleton] at hMem
        rw [hMem] at hKind
        exact absurd hLast hKind
      · simp only [tokensWithin, hLast, if_false, List.mem_cons]
          at hMem
        rcases hMem with rfl | hMore
        · exact nextToken_wellFormed hKind
        · exact ih hMore

------------------------------------------------------------
-- Reading Lexemes Again
------------------------------------------------------------

/- A lexeme between blanks is read as a token like it. -/
theorem nextToken_respelled
    {cur : Cursor}
    {t : Token}
    {blanks more : List Char}
    (hToken : t.WellFormed)
    (hBlanks : ∀ c ∈ blanks, isBlank c = true)
    (hRest :
      cur.rest =
        blanks ++ (spelling t.kind t.literal.toList ++
          ' ' :: more)) :
    t.Alike cur.nextToken.1 ∧
      cur.nextToken.2.rest = ' ' :: more := by
  have hSkipped :
      cur.skipBlanks.rest =
        spelling t.kind t.literal.toList ++ ' ' :: more := by
    rcases hToken.opens with ⟨c, rest, hFirst, hBlank⟩
    rw [skipBlanks_rest, hRest, hFirst,
      List.dropWhile_append_of_pos hBlanks]
    simp [hBlank]
  have hApart : t.kind.Apart (' ' :: more) := by
    intro c hHead
    cases hHead
    exact t.kind.absorbs_of_isApart rfl
  rcases hToken.tokenHere_eq hApart hSkipped with
    ⟨hKind, hLiteral, hAfter⟩
  refine ⟨⟨hKind.symm, ?_⟩, hAfter⟩
  rw [nextToken, hLiteral, String.ofList_toList]

/- Nothing but blanks is the end of a text. -/
theorem nextToken_of_blanks
    {cur : Cursor}
    (hBlanks : ∀ c ∈ cur.rest, isBlank c = true) :
    cur.nextToken.1.kind = .eof := by
  refine tokenHere_eof ?_
  rw [skipBlanks_rest, ← List.append_nil cur.rest,
    List.dropWhile_append_of_pos hBlanks]
  rfl

theorem tokensWithin_respelled
    {n : Nat}
    {ts : List Token}
    {cur : Cursor}
    (blanks : List Char)
    (hTokens : ∀ t ∈ ts, t.WellFormed)
    (hBlanks : ∀ c ∈ blanks, isBlank c = true)
    (hRest : cur.rest = blanks ++ respell ts)
    (hEnough : cur.rest.length < n) :
    ∃ us stop,
      (cur.tokensWithin n).1 = us ++ [stop] ∧
        List.Forall₂ Token.Alike ts us ∧
        stop.kind = .eof := by
  induction ts generalizing n cur blanks with
  | nil =>
      cases n with
      | zero => exact absurd hEnough (Nat.not_lt_zero _)
      | succ n =>
          have hEnd : cur.nextToken.1.kind = .eof := by
            refine nextToken_of_blanks ?_
            rw [hRest]
            simpa [respell] using hBlanks
          refine ⟨[], cur.nextToken.1, ?_, .nil, hEnd⟩
          simp [tokensWithin, hEnd]
  | cons t more ih =>
      rcases List.forall_mem_cons.mp hTokens with
        ⟨hToken, hMore⟩
      have hRead :
          cur.rest =
            blanks ++ (spelling t.kind t.literal.toList ++
              ' ' :: respell more) := by
        rw [hRest]
        simp [respell]
      rcases nextToken_respelled hToken hBlanks hRead with
        ⟨hAlike, hAfter⟩
      cases n with
      | zero => exact absurd hEnough (Nat.not_lt_zero _)
      | succ n =>
          have hKind : cur.nextToken.1.kind ≠ .eof := by
            rw [← hAlike.1]
            exact hToken.kind_ne_eof
          have hShorter := nextToken_shorter hKind
          have hFewer : cur.nextToken.2.rest.length < n := by
            omega
          rcases ih [' '] hMore (by simp; rfl) hAfter hFewer with
            ⟨us, stop, hUs, hAll, hStop⟩
          refine ⟨cur.nextToken.1 :: us, stop, ?_,
            .cons hAlike hAll, hStop⟩
          simp [tokensWithin, hKind, hUs]

end Cursor

------------------------------------------------------------
-- Texts
------------------------------------------------------------

/- The tokens of a text before its end have lexemes. -/
theorem wellFormed_of_mem_tokens
    {source : String}
    {t : Token}
    (hMem : t ∈ tokens source)
    (hKind : t.kind ≠ .eof) :
    t.WellFormed :=
  Cursor.tokensWithin_wellFormed hMem hKind

theorem wellFormed_of_mem_bodyTokens
    {source : String}
    {t : Token}
    (hMem : t ∈ bodyTokens source) :
    t.WellFormed := by
  rcases tokens_eq_bodyTokens_append source with
    ⟨stop, hTokens, -, hBody⟩
  have hListed : t ∈ tokens source := by
    rw [hTokens]
    exact List.mem_append_left _ hMem
  exact wellFormed_of_mem_tokens hListed (hBody t hMem)

/- Tokens with lexemes, written one after another, are the tokens
   of a text. -/
theorem bodyTokens_respell
    {ts : List Token}
    (hTokens : ∀ t ∈ ts, t.WellFormed) :
    List.Forall₂ Token.Alike ts
      (bodyTokens (String.ofList (respell ts))) := by
  have hRest :
      (Cursor.ofText (String.ofList (respell ts))).rest =
        [] ++ respell ts :=
    String.toList_ofList
  rcases Cursor.tokensWithin_respelled [] hTokens nofun hRest
      (Nat.lt_succ_self _) with ⟨us, stop, hUs, hAlike, -⟩
  have hBody :
      bodyTokens (String.ofList (respell ts)) = us := by
    change (Cursor.tokensWithin _ _).1.dropLast = us
    rw [hUs, List.dropLast_concat]
  rw [hBody]
  exact hAlike

end Monkey
