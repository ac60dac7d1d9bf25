import Monkey.Proofs.Session.Normalize
import Monkey.Session.EditBuffer

/-
  The brackets of a text, character by character.

  A quote begins a string or ends one, and only what stands
  outside of strings can be a bracket.  Read in this way, without
  regard to tokens, a text shows the brackets that its tokens
  are.  No invisible character is a quote or a bracket.  So the
  session's clean-up keeps the brackets, however it joins tokens
  or shortens strings, and Enter decides as it would behind it.

  Main declarations:
    * `bareBrackets`
    * `brackets_tokens`
    * `bareBrackets_visible`
    * `openDepth_normalize`
-/

namespace Monkey

------------------------------------------------------------
-- Brackets
------------------------------------------------------------

namespace TokenKind

/- An opening or closing bracket. -/
def isBracket (kind : TokenKind) : Bool :=
  kind.opens || kind.closes

/- The number of open brackets after one more bracket. -/
def depthAfter
    (depth : Nat)
    (kind : TokenKind) :
    Nat :=
  if kind.opens then
    depth + 1
  else if kind.closes then
    depth - 1
  else
    depth

/- The kind of bracket that a character is, if it is one. -/
def bracket? (c : Char) : Option TokenKind :=
  (ofMark? c).filter isBracket

/- A word is no bracket. -/
theorem isBracket_ofWord
    (word : String) :
    (ofWord word).isBracket = false := by
  unfold ofWord
  repeat' split
  all_goals rfl

end TokenKind

/- The brackets among tokens, in order. -/
def brackets (ts : List Token) : List TokenKind :=
  (ts.map Token.kind).filter TokenKind.isBracket

/-
  The brackets of characters, in order.  The characters begin
  inside or outside of a string, each quote changes that, and
  brackets inside do not count.
-/
def bareBrackets : Bool → List Char → List TokenKind
  | _, [] => []
  | inside, c :: cs =>
      if c = '"' then
        bareBrackets (!inside) cs
      else if inside then
        bareBrackets inside cs
      else
        (TokenKind.bracket? c).toList ++ bareBrackets inside cs

/- The open brackets are counted from the brackets alone. -/
theorem foldl_bracketStep_eq
    (ts : List Token)
    (depth : Nat) :
    ts.foldl bracketStep depth =
      (brackets ts).foldl TokenKind.depthAfter depth := by
  induction ts generalizing depth with
  | nil => rfl
  | cons t ts ih =>
      have hStep :
          bracketStep depth t = t.kind.depthAfter depth :=
        rfl
      rw [List.foldl_cons, ih, hStep]
      unfold brackets
      cases hBracket : t.kind.isBracket with
      | true =>
          rw [List.map_cons, List.filter_cons_of_pos hBracket,
            List.foldl_cons]
      | false =>
          have hSame : t.kind.depthAfter depth = depth := by
            have hNeither := Bool.or_eq_false_iff.mp hBracket
            simp [TokenKind.depthAfter, hNeither]
          rw [List.map_cons, hSame,
            List.filter_cons_of_neg (by simp [hBracket])]

------------------------------------------------------------
-- Characters Without Brackets
------------------------------------------------------------

section

variable {c : Char}
variable {cs : List Char}

/- Neither a quote nor a bracket. -/
def IsUnbracketed (c : Char) : Prop :=
  c ≠ '"' ∧ TokenKind.bracket? c = none

theorem unbracketed_of_not_mark
    (hMark : TokenKind.ofMark? c = none)
    (hQuote : c ≠ '"') :
    IsUnbracketed c := by
  refine ⟨hQuote, ?_⟩
  unfold TokenKind.bracket?
  rw [hMark]
  rfl

/- So is every character of a class without quotes and marks. -/
theorem unbracketed_of_class
    {p : Char → Bool}
    (hQuote : p '"' = false)
    (hMarks :
      ∀ {c kind}, TokenKind.ofMark? c = some kind → p c = false)
    (h : p c = true) :
    IsUnbracketed c := by
  apply unbracketed_of_not_mark
  · cases hMark : TokenKind.ofMark? c with
    | none => rfl
    | some kind =>
        rw [hMarks hMark] at h
        cases h
  · rintro rfl
    rw [hQuote] at h
    cases h

theorem unbracketed_of_isLetter
    (h : isLetter c = true) :
    IsUnbracketed c :=
  unbracketed_of_class rfl (fun hMark => (mark_only hMark).2.1) h

theorem unbracketed_of_isDigit
    (h : isDigit c = true) :
    IsUnbracketed c :=
  unbracketed_of_class rfl (fun hMark => (mark_only hMark).2.2) h

theorem unbracketed_of_isBlank
    (h : isBlank c = true) :
    IsUnbracketed c :=
  unbracketed_of_class rfl (fun hMark => (mark_only hMark).1) h

theorem unbracketed_of_isInvisible
    (h : isInvisible c = true) :
    IsUnbracketed c :=
  unbracketed_of_class rfl isInvisible_of_mark h

/- Such a character does not matter, inside or outside. -/
theorem bareBrackets_cons
    (h : IsUnbracketed c)
    (inside : Bool)
    (cs : List Char) :
    bareBrackets inside (c :: cs) = bareBrackets inside cs := by
  rw [bareBrackets, if_neg h.1, h.2]
  exact ite_self _

theorem bareBrackets_append
    (h : ∀ c ∈ cs, IsUnbracketed c)
    (more : List Char) :
    bareBrackets false (cs ++ more) =
      bareBrackets false more := by
  induction cs with
  | nil => rfl
  | cons c cs ih =>
      rcases List.forall_mem_cons.mp h with ⟨hFirst, hRest⟩
      rw [List.cons_append, bareBrackets_cons hFirst, ih hRest]

/- Inside of a string nothing counts up to the next quote. -/
theorem bareBrackets_inside
    (hQuote : '"' ∉ cs)
    (more : List Char) :
    bareBrackets true (cs ++ more) = bareBrackets true more := by
  induction cs with
  | nil => rfl
  | cons c cs ih =>
      rcases not_or.mp (mt List.mem_cons.mpr hQuote) with
        ⟨hFirst, hRest⟩
      rw [List.cons_append, bareBrackets,
        if_neg (Ne.symm hFirst), if_pos rfl, ih hRest]

------------------------------------------------------------
-- Tokens
------------------------------------------------------------

/- Where a token is spelled, it is the only bracket, if it is
   one. -/
theorem Lexeme.bareBrackets_spelling
    {kind : TokenKind}
    (h : Lexeme kind cs)
    (more : List Char) :
    bareBrackets false (spelling kind cs ++ more) =
      [kind].filter TokenKind.isBracket ++
        bareBrackets false more := by
  cases h with
  | eq => rfl
  | notEq => rfl
  | @mark c kind hMark =>
      have hQuote : c ≠ '"' := by
        rintro rfl
        cases hMark
      have hSpelled : spelling kind [c] = [c] :=
        if_neg (TokenKind.ofMark_ne hMark).1
      rw [hSpelled, List.singleton_append, bareBrackets,
        if_neg hQuote, TokenKind.bracket?, hMark]
      cases hBracket : kind.isBracket <;>
        simp [Option.filter, hBracket]
  | @string cs hQuote =>
      have hSpelled :
          spelling .string cs ++ more =
            '"' :: (cs ++ '"' :: more) := by
        simp [spelling]
      rw [hSpelled, bareBrackets, if_pos rfl, Bool.not_false,
        bareBrackets_inside hQuote, bareBrackets, if_pos rfl]
      rfl
  | @word cs _ hLetters =>
      have hSpelled :
          spelling (.ofWord (String.ofList cs)) cs = cs :=
        if_neg (TokenKind.ofWord_ne _).1
      rw [hSpelled,
        List.filter_singleton,
        TokenKind.isBracket_ofWord]
      exact bareBrackets_append
        (fun c hMem => unbracketed_of_isLetter (hLetters c hMem))
        more
  | number _ hDigits =>
      exact bareBrackets_append
        (fun c hMem => unbracketed_of_isDigit (hDigits c hMem))
        more
  | illegal _ hMark hQuote =>
      exact bareBrackets_cons
        (unbracketed_of_not_mark hMark hQuote) false more

/- Characters show the brackets of the tokens that they are
   divided into. -/
theorem Partition.bareBrackets_eq
    {ts : List Token}
    (h : Partition cs ts) :
    bareBrackets false cs = brackets ts := by
  induction h with
  | @blanks blanks hBlanks =>
      rw [← List.append_nil blanks]
      exact bareBrackets_append
        (fun c hMem => unbracketed_of_isBlank (hBlanks c hMem))
        []
  | token hBlanks hToken _ _ ih =>
      rw [bareBrackets_append fun c hMem =>
          unbracketed_of_isBlank (hBlanks c hMem),
        hToken.bareBrackets_spelling, ih]
      unfold brackets
      rw [List.map_cons, ← List.filter_append,
        List.singleton_append]
  | @unclosed blanks t hBlanks hString hQuote =>
      rw [bareBrackets_append fun c hMem =>
          unbracketed_of_isBlank (hBlanks c hMem),
        bareBrackets, if_pos rfl, Bool.not_false,
        ← List.append_nil t.literal.toList,
        bareBrackets_inside hQuote]
      unfold brackets
      rw [List.map_singleton, hString]
      rfl

end

/- A text shows the brackets of its tokens. -/
theorem brackets_tokens
    (text : String) :
    brackets (tokens text) = bareBrackets false text.toList := by
  rcases tokens_eq_bodyTokens_append text with
    ⟨stop, hTokens, hStop, -⟩
  rw [(partition_bodyTokens text).bareBrackets_eq, hTokens]
  unfold brackets
  rw [List.map_append, List.filter_append, List.map_singleton,
    hStop]
  exact List.append_nil _

------------------------------------------------------------
-- Invisible Characters
------------------------------------------------------------

/- What can be seen of a text shows all of its brackets. -/
theorem bareBrackets_visible
    (inside : Bool)
    (cs : List Char) :
    bareBrackets inside (visible cs) =
      bareBrackets inside cs := by
  induction cs generalizing inside with
  | nil => rfl
  | cons c cs ih =>
      unfold visible at ih ⊢
      cases hInvisible : isInvisible c with
      | true =>
          have hUnbracketed :=
            unbracketed_of_isInvisible hInvisible
          rw [List.filter_cons_of_neg (by simp [hInvisible]),
            bareBrackets_cons hUnbracketed, ih]
      | false =>
          rw [List.filter_cons_of_pos (by simp [hInvisible]),
            bareBrackets, bareBrackets, ih, ih]

/-
  A text has the same brackets in the same order without its
  invisible characters, and so as many are open at its end.  Hence
  Enter hands a text in just if nothing is open in what is then
  evaluated.
-/
theorem openDepth_normalize
    (text : String) :
    brackets (tokens (normalize text)) =
        brackets (tokens text) ∧
      openDepth (normalize text) = openDepth text ∧
      ∀ e : Editor,
        String.ofList e.buffer.text = text →
          (e.enter.accepted = e.accepted + 1 ↔
            openDepth (normalize text) = 0) := by
  have hText :
      (normalize text).toList = visible text.toList :=
    String.toList_ofList
  have hBrackets :
      brackets (tokens (normalize text)) =
        brackets (tokens text) := by
    rw [brackets_tokens, brackets_tokens, hText,
      bareBrackets_visible]
  have hDepth : openDepth (normalize text) = openDepth text := by
    unfold openDepth
    rw [foldl_bracketStep_eq, foldl_bracketStep_eq, hBrackets]
  refine ⟨hBrackets, hDepth, ?_⟩
  rintro e rfl
  rw [hDepth]
  by_cases hOpen : 0 < openDepth (String.ofList e.buffer.text)
  · simp [Editor.enter, hOpen, Nat.ne_of_gt hOpen]
  · simp [Editor.enter, Nat.eq_zero_of_not_pos hOpen]

/- Brackets in strings do not count, also not in one that is cut
   short or has no end. -/
example :
    openDepth
        (normalize "f(\"\x7b\u200b(\u00a0[\", 1\r2 \"]") =
      1 := by
  decide +kernel

end Monkey
