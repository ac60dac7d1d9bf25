import Monkey.Proofs.Token.Positions
import Monkey.Proofs.Token.Scanning

/-
  Cursors under any sequence of actions.

  Whatever is done with a cursor moves it over a number of
  characters, at most to the end.  So it always stands in its
  text, at the line and column of its position, and what it gives
  out is the text that it moved over.  Once the end was read, the
  cursor stays where it is.

  Main declarations:
    * `CursorAction`
    * `Cursor.Stands`
    * `CursorAction.Gives`
    * `Cursor.exists_skip_actAll`
    * `cursor_stands`
-/

namespace Monkey

------------------------------------------------------------
-- Actions
------------------------------------------------------------

/- What can be done with a cursor. -/
inductive CursorAction where
  | nextToken
  | takeTokens
  | tokensWithin (count : Nat)
  | peek (offset : Int)
  | advance (amount : Int)
  | skipBlanks
  | takeQuoted
  | takeWhile (p : Char → Bool)

/- What an action can give. -/
inductive CursorAnswer where
  | nothing
  | token (t : Token)
  | tokens (ts : List Token)
  | character (c : Option Char)
  | text (s : String)

/- The tokens in an answer. -/
def CursorAnswer.shown : CursorAnswer → List Token
  | token t => [t]
  | tokens ts => ts
  | _ => []

namespace Cursor

/- Do an action.  One that is refused leaves the cursor. -/
def act
    (cur : Cursor) :
    CursorAction → Except CursorError CursorAnswer × Cursor
  | .nextToken => (.ok (.token cur.nextToken.1), cur.nextToken.2)
  | .takeTokens =>
      (.ok (.tokens cur.takeTokens.1), cur.takeTokens.2)
  | .tokensWithin count =>
      (.ok (.tokens (cur.tokensWithin count).1),
        (cur.tokensWithin count).2)
  | .peek offset => ((cur.peek offset).map .character, cur)
  | .advance amount =>
      match cur.advance amount with
      | .ok (s, after) => (.ok (.text s), after)
      | .error e => (.error e, cur)
  | .skipBlanks => (.ok .nothing, cur.skipBlanks)
  | .takeQuoted => (.ok (.text cur.takeQuoted.1), cur.takeQuoted.2)
  | .takeWhile p =>
      (.ok (.text (cur.takeWhile p).1), (cur.takeWhile p).2)

/- The cursor after a sequence of actions. -/
def actAll
    (cur : Cursor)
    (actions : List CursorAction) :
    Cursor :=
  actions.foldl (fun cur action => (cur.act action).2) cur

end Cursor

------------------------------------------------------------
-- What Is Certain
------------------------------------------------------------

/- A cursor is in a text, with the line and column of its
   position. -/
structure Cursor.Stands
    (cur : Cursor)
    (text : List Char) : Prop where
  source : cur.source = text
  position : cur.position ≤ text.length
  line : cur.line = lineAfter (text.take cur.position)
  column : cur.column = columnAfter (text.take cur.position)

/-
  What an action gives that goes from one position of a text to
  another.  Texts are what lies between the two; a quoted text
  lacks its first character and the closing quote, which is
  missing only at the end.  A number of characters that is
  negative is refused, and so is a look at a place before the
  start, counted from the end.
-/
inductive CursorAction.Gives
    (text : List Char)
    (start : Nat) :
    Nat → CursorAction → Except CursorError CursorAnswer → Prop
  | token
      {stop : Nat}
      (t : Token) :
      Gives text start stop .nextToken (.ok (.token t))
  | tokens
      {stop : Nat}
      (ts : List Token) :
      Gives text start stop .takeTokens (.ok (.tokens ts))
  | someTokens
      {stop count : Nat}
      (ts : List Token) :
      Gives text start stop (.tokensWithin count)
        (.ok (.tokens ts))
  | looked
      {offset : Int}
      (hInside : -(text.length : Int) ≤ start + offset)
      (c : Option Char) :
      Gives text start start (.peek offset)
        (.ok (.character c))
  | lookedOutside
      {offset : Int}
      (hOutside : start + offset < -(text.length : Int)) :
      Gives text start start (.peek offset)
        (.error .outOfRange)
  | advanced
      {stop : Nat}
      {amount : Int}
      (hAmount : 0 ≤ amount)
      (hStop : stop = min (start + amount.toNat) text.length) :
      Gives text start stop (.advance amount)
        (.ok (.text (String.ofList (text.extract start stop))))
  | refused
      {amount : Int}
      (hAmount : amount < 0) :
      Gives text start start (.advance amount)
        (.error (.negativeAdvance amount))
  | skipped
      {stop : Nat}
      (hBlanks :
        ∀ c ∈ text.extract start stop, isBlank c = true)
      (hStop : ∀ c ∈ text[stop]?, isBlank c = false) :
      Gives text start stop .skipBlanks (.ok .nothing)
  | quoted
      {stop : Nat}
      {content closing : List Char}
      (hText :
        (text.extract start stop).tail = content ++ closing)
      (hContent : '"' ∉ content)
      (hClosing :
        closing = ['"'] ∨ closing = [] ∧ stop = text.length) :
      Gives text start stop .takeQuoted
        (.ok (.text (String.ofList content)))
  | ran
      {stop : Nat}
      {p : Char → Bool}
      (hRun : ∀ c ∈ text.extract start stop, p c = true)
      (hStop : ∀ c ∈ text[stop]?, p c = false) :
      Gives text start stop (.takeWhile p)
        (.ok (.text (String.ofList (text.extract start stop))))

namespace Cursor

variable {cur : Cursor}

------------------------------------------------------------
-- Moving Over Characters
------------------------------------------------------------

/- The text that a cursor moves over. -/
theorem extract_skip
    (n : Nat)
    (cur : Cursor) :
    cur.source.extract cur.position (cur.skip n).position =
      cur.rest.take n := by
  have hLength := cur.position_add_rest
  rw [position_skip, List.extract_eq_take_drop, drop_position]
  refine List.take_eq_take_iff.mpr ?_
  omega

theorem getElem?_position
    (cur : Cursor) :
    cur.source[cur.position]? = cur.rest.head? := by
  rw [← drop_position, List.head?_drop]

/- From the start of a text a cursor moves in the text. -/
theorem stands_skip
    (source : String)
    (n : Nat) :
    ((ofText source).skip n).Stands source.toList := by
  have hSource :
      ((ofText source).skip n).source = source.toList :=
    skip_source n _
  have hCounts := (counts_ofText source).skip n
  have hRead := ((ofText source).skip n).take_position
  rw [hSource] at hRead
  refine ⟨hSource, ?_, ?_, ?_⟩
  · rw [← hSource, ← position_add_rest]
    exact Nat.le_add_right ..
  · rw [hRead]
    exact hCounts.line
  · rw [hRead]
    exact hCounts.column

------------------------------------------------------------
-- Actions Move
------------------------------------------------------------

theorem exists_skip_nextToken
    (cur : Cursor) :
    ∃ n, cur.nextToken.2 = cur.skip n := by
  rcases cur.skipBlanks.tokenHere_place with ⟨-, n, hAfter⟩
  unfold nextToken
  rw [hAfter]
  exact ⟨_, skip_skip _ n cur⟩

theorem exists_skip_tokensWithin
    (count : Nat)
    (cur : Cursor) :
    ∃ n, (cur.tokensWithin count).2 = cur.skip n := by
  induction count generalizing cur with
  | zero => exact ⟨0, rfl⟩
  | succ count ih =>
      rcases cur.exists_skip_nextToken with ⟨n, hNext⟩
      by_cases hKind : cur.nextToken.1.kind = .eof
      · rw [tokensWithin_succ_of_eof hKind]
        exact ⟨n, hNext⟩
      · rcases ih cur.nextToken.2 with ⟨m, hMore⟩
        rw [tokensWithin_succ hKind, hMore, hNext, skip_skip]
        exact ⟨n + m, rfl⟩

theorem act_advance
    {amount : Int}
    (hAmount : 0 ≤ amount)
    (cur : Cursor) :
    cur.act (.advance amount) =
      (.ok (.text (String.ofList (cur.rest.take amount.toNat))),
        cur.skip amount.toNat) := by
  simp [act, advance, hAmount]

theorem act_advance_of_neg
    {amount : Int}
    (hAmount : amount < 0)
    (cur : Cursor) :
    cur.act (.advance amount) =
      (.error (.negativeAdvance amount), cur) := by
  simp [act, advance, Int.not_le.mpr hAmount]

/- An action only moves over characters. -/
theorem exists_skip_act
    (action : CursorAction)
    (cur : Cursor) :
    ∃ n, (cur.act action).2 = cur.skip n := by
  cases action with
  | nextToken => exact cur.exists_skip_nextToken
  | takeTokens => exact exists_skip_tokensWithin _ cur
  | tokensWithin count => exact exists_skip_tokensWithin _ cur
  | peek offset => exact ⟨0, rfl⟩
  | advance amount =>
      by_cases hAmount : 0 ≤ amount
      · rw [act_advance hAmount]
        exact ⟨amount.toNat, rfl⟩
      · rw [act_advance_of_neg (Int.not_le.mp hAmount)]
        exact ⟨0, rfl⟩
  | skipBlanks => exact ⟨_, rfl⟩
  | takeQuoted => exact cur.takeQuoted_skip
  | takeWhile p => exact ⟨_, rfl⟩

/- So do any number of them. -/
theorem exists_skip_actAll
    (actions : List CursorAction)
    (cur : Cursor) :
    ∃ n, cur.actAll actions = cur.skip n := by
  induction actions generalizing cur with
  | nil => exact ⟨0, rfl⟩
  | cons action actions ih =>
      rcases exists_skip_act action cur with ⟨n, hFirst⟩
      rcases ih (cur.act action).2 with ⟨m, hMore⟩
      refine ⟨n + m, ?_⟩
      rw [← skip_skip, ← hFirst]
      exact hMore

------------------------------------------------------------
-- What Actions Give
------------------------------------------------------------

theorem gives_peek
    (offset : Int)
    (cur : Cursor) :
    CursorAction.Gives cur.source cur.position cur.position
      (.peek offset) ((cur.peek offset).map .character) := by
  unfold peek
  extract_lets size index
  by_cases hOutside : index < -size
  · rw [if_neg (by omega), if_neg (by omega), if_neg (by omega)]
    exact .lookedOutside hOutside
  · have hInside := Int.not_lt.mp hOutside
    split
    · exact .looked hInside none
    · split
      · exact .looked hInside _
      · rw [if_pos (by omega)]
        exact .looked hInside _

theorem gives_advance
    (amount : Int)
    (cur : Cursor) :
    CursorAction.Gives cur.source cur.position
      (cur.act (.advance amount)).2.position (.advance amount)
      (cur.act (.advance amount)).1 := by
  by_cases hAmount : 0 ≤ amount
  · rw [act_advance hAmount, ← extract_skip]
    exact .advanced hAmount (position_skip ..)
  · have hNegative := Int.not_le.mp hAmount
    rw [act_advance_of_neg hNegative]
    exact .refused hNegative

/- A run of a class of characters is what lies between its
   ends, and does not go on behind it. -/
theorem extract_run
    (p : Char → Bool)
    (cur : Cursor) :
    let after := cur.skip (cur.rest.takeWhile p).length
    cur.source.extract cur.position after.position =
        cur.rest.takeWhile p ∧
      ∀ c ∈ cur.source[after.position]?, p c = false := by
  intro after
  rcases take_drop_run p cur.rest with ⟨hTake, hDrop⟩
  refine ⟨(extract_skip ..).trans hTake, ?_⟩
  have hSource : after.source = cur.source := skip_source ..
  have hRest : after.rest = cur.rest.dropWhile p :=
    (skip_rest ..).trans hDrop
  rw [← hSource, getElem?_position, hRest]
  exact head_of_dropWhile p cur.rest

theorem gives_skipBlanks
    (cur : Cursor) :
    CursorAction.Gives cur.source cur.position
      cur.skipBlanks.position .skipBlanks (.ok .nothing) := by
  rcases cur.extract_run isBlank with ⟨hText, hStop⟩
  refine .skipped ?_ hStop
  change ∀ c ∈ cur.source.extract _ (cur.skip _).position, _
  rw [hText]
  exact List.all_eq_true.mp List.all_takeWhile

theorem gives_takeWhile
    (p : Char → Bool)
    (cur : Cursor) :
    CursorAction.Gives cur.source cur.position
      (cur.takeWhile p).2.position (.takeWhile p)
      (.ok (.text (cur.takeWhile p).1)) := by
  rcases cur.extract_run p with ⟨hText, hStop⟩
  have hRead :
      (cur.takeWhile p).1 =
        String.ofList
          (cur.source.extract cur.position
            (cur.takeWhile p).2.position) :=
    congrArg String.ofList hText.symm
  rw [hRead]
  refine .ran ?_ hStop
  change ∀ c ∈ cur.source.extract _ (cur.skip _).position, _
  rw [hText]
  exact List.all_eq_true.mp List.all_takeWhile

/- What a quoted text takes is its first character, its content,
   and the quote behind that or nothing at the end. -/
theorem takeQuoted_eq_skip
    (cur : Cursor) :
    ∃ content closing,
      cur.takeQuoted =
          (String.ofList content,
            cur.skip (content.length + 1 + 1)) ∧
        cur.rest.tail.take (content.length + 1) =
          content ++ closing ∧
        '"' ∉ content ∧
        (closing = ['"'] ∨
          closing = [] ∧ cur.takeQuoted.2.rest = []) := by
  let content := cur.rest.tail.takeWhile (· != '"')
  have hContent :
      (cur.skip 1).rest.takeWhile (· != '"') = content := by
    rw [skip_rest, List.drop_one]
  have hQuoted :
      cur.takeQuoted =
        (String.ofList content,
          cur.skip (content.length + 1 + 1)) := by
    simp only [takeQuoted, hContent, skip_skip]
    congr 2
    omega
  rcases take_drop_run (· != '"') cur.rest.tail with
    ⟨hTake, hDrop⟩
  refine ⟨content,
    (cur.rest.tail.dropWhile (· != '"')).take 1, hQuoted, ?_,
    ?_, ?_⟩
  · rw [List.take_add, hTake, hDrop]
  · intro hMem
    have hOther := List.all_eq_true.mp List.all_takeWhile _ hMem
    cases hOther
  · have hFirst := head_of_dropWhile (· != '"') cur.rest.tail
    rw [hQuoted, skip_rest, Nat.add_comm, ← List.drop_drop,
      List.drop_one, ← List.drop_drop, hDrop]
    cases hEnd : cur.rest.tail.dropWhile (· != '"') with
    | nil => exact .inr ⟨rfl, rfl⟩
    | cons d rest =>
        have hQuote : d = '"' := by
          simpa [hEnd] using hFirst d
        exact .inl (by rw [hQuote]; rfl)

theorem gives_takeQuoted
    (cur : Cursor) :
    CursorAction.Gives cur.source cur.position
      cur.takeQuoted.2.position .takeQuoted
      (.ok (.text cur.takeQuoted.1)) := by
  rcases cur.takeQuoted_eq_skip with
    ⟨content, closing, hQuoted, hText, hContent, hClosing⟩
  have hSource : cur.takeQuoted.2.source = cur.source := by
    rw [hQuoted]
    exact skip_source ..
  have hRead : cur.takeQuoted.1 = String.ofList content :=
    congrArg Prod.fst hQuoted
  rw [hRead]
  refine .quoted ?_ hContent (hClosing.imp_right ?_)
  · rw [hQuoted, extract_skip, ← List.drop_one, List.drop_take,
      List.drop_one, Nat.add_sub_cancel]
    exact hText
  · rintro ⟨hNone, hRest⟩
    rw [← hSource]
    exact ⟨hNone, position_of_rest_nil hRest⟩

/- Every action gives what lies between its ends. -/
theorem gives_act
    (action : CursorAction)
    (cur : Cursor) :
    action.Gives cur.source cur.position
      (cur.act action).2.position (cur.act action).1 := by
  cases action with
  | nextToken => exact .token _
  | takeTokens => exact .tokens _
  | tokensWithin count => exact .someTokens _
  | peek offset => exact gives_peek offset cur
  | advance amount => exact gives_advance amount cur
  | skipBlanks => exact gives_skipBlanks cur
  | takeQuoted => exact gives_takeQuoted cur
  | takeWhile p => exact gives_takeWhile p cur

------------------------------------------------------------
-- The End
------------------------------------------------------------

theorem actAll_of_rest_nil
    (hRest : cur.rest = [])
    (actions : List CursorAction) :
    cur.actAll actions = cur := by
  rcases exists_skip_actAll actions cur with ⟨n, hAll⟩
  rw [hAll, skip_of_rest_nil hRest]

/- The end of a text at a cursor, as a token. -/
def endHere (cur : Cursor) : Token where
  kind := .eof
  literal := ""
  line := cur.line
  column := cur.column

theorem tokenHere_of_rest_nil
    (hRest : cur.rest = []) :
    cur.tokenHere = (cur.endHere, cur) := by
  unfold tokenHere
  rw [hRest]
  simp only [takeToken, hRest]
  rfl

/- The end that is read is that of where the cursor then is. -/
theorem nextToken_of_eof
    (hKind : cur.nextToken.1.kind = .eof) :
    cur.nextToken.2.rest = [] ∧
      cur.nextToken.1 = cur.nextToken.2.endHere := by
  have hRest := skipBlanks_rest_of_eof hKind
  unfold nextToken
  rw [tokenHere_of_rest_nil hRest]
  exact ⟨hRest, rfl⟩

theorem nextToken_of_rest_nil
    (hRest : cur.rest = []) :
    cur.nextToken = (cur.endHere, cur) := by
  unfold nextToken skipBlanks
  rw [skip_of_rest_nil hRest, tokenHere_of_rest_nil hRest]

theorem act_nextToken_of_rest_nil
    (hRest : cur.rest = []) :
    cur.act .nextToken = (.ok (.token cur.endHere), cur) := by
  unfold act
  rw [nextToken_of_rest_nil hRest]

/- A list of tokens with the end in it was read up to there. -/
theorem tokensWithin_of_eof
    {count : Nat}
    {t : Token}
    (hMem : t ∈ (cur.tokensWithin count).1)
    (hKind : t.kind = .eof) :
    (cur.tokensWithin count).2.rest = [] ∧
      t = (cur.tokensWithin count).2.endHere := by
  induction count generalizing cur with
  | zero => cases hMem
  | succ count ih =>
      by_cases hEnd : cur.nextToken.1.kind = .eof
      · rw [tokensWithin_succ_of_eof hEnd] at hMem ⊢
        rw [List.mem_singleton] at hMem
        rw [hMem]
        exact nextToken_of_eof hEnd
      · rw [tokensWithin_succ hEnd] at hMem ⊢
        rcases List.mem_cons.mp hMem with rfl | hMore
        · exact absurd hKind hEnd
        · exact ih hMore

/- An action that shows the end leaves the cursor there. -/
theorem act_of_shown_eof
    {action : CursorAction}
    {answer : CursorAnswer}
    {t : Token}
    (hAnswer : (cur.act action).1 = .ok answer)
    (hShown : t ∈ answer.shown)
    (hKind : t.kind = .eof) :
    (cur.act action).2.rest = [] ∧
      t = (cur.act action).2.endHere := by
  cases action with
  | nextToken =>
      cases hAnswer
      rw [List.mem_singleton.mp hShown] at hKind ⊢
      exact nextToken_of_eof hKind
  | takeTokens =>
      cases hAnswer
      exact tokensWithin_of_eof hShown hKind
  | tokensWithin count =>
      cases hAnswer
      exact tokensWithin_of_eof hShown hKind
  | peek offset =>
      change (cur.peek offset).map _ = _ at hAnswer
      cases hPeek : cur.peek offset with
      | error e =>
          rw [hPeek] at hAnswer
          cases hAnswer
      | ok c =>
          rw [hPeek] at hAnswer
          cases hAnswer
          cases hShown
  | advance amount =>
      by_cases hAmount : 0 ≤ amount
      · rw [act_advance hAmount] at hAnswer
        cases hAnswer
        cases hShown
      · rw [act_advance_of_neg (Int.not_le.mp hAmount)]
          at hAnswer
        cases hAnswer
  | skipBlanks =>
      cases hAnswer
      cases hShown
  | takeQuoted =>
      cases hAnswer
      cases hShown
  | takeWhile p =>
      cases hAnswer
      cases hShown

/- A refused action leaves the cursor. -/
theorem act_of_error
    {action : CursorAction}
    {e : CursorError}
    (hAnswer : (cur.act action).1 = .error e) :
    (cur.act action).2 = cur := by
  cases action with
  | peek offset => rfl
  | advance amount =>
      by_cases hAmount : 0 ≤ amount
      · rw [act_advance hAmount] at hAnswer
        cases hAnswer
      · rw [act_advance_of_neg (Int.not_le.mp hAmount)]
  | _ => cases hAnswer

end Cursor

------------------------------------------------------------
-- Runs
------------------------------------------------------------

/-
  After any actions a cursor stands in its text, and so it does
  after one more.  That one does not move it back, and gives what
  lies between the two positions; if it is refused, nothing
  changes.  Once the end has been shown, whatever is done then,
  the same end is read again.
-/
theorem cursor_stands
    (source : String)
    (actions : List CursorAction)
    (action : CursorAction) :
    ∃ before after : Cursor, ∃ answer,
      (Cursor.ofText source).actAll actions = before ∧
        before.act action = (answer, after) ∧
        before.Stands source.toList ∧
        after.Stands source.toList ∧
        before.position ≤ after.position ∧
        action.Gives source.toList before.position after.position
          answer ∧
        (∀ e, answer = .error e → after = before) ∧
        ∀ given, answer = .ok given →
          ∀ stop ∈ given.shown, stop.kind = .eof →
            ∀ later,
              (after.actAll later).act .nextToken =
                (.ok (.token stop), after.actAll later) := by
  let before := (Cursor.ofText source).actAll actions
  obtain ⟨n, hBefore⟩ :
      ∃ n, before = (Cursor.ofText source).skip n :=
    Cursor.exists_skip_actAll actions _
  obtain ⟨m, hAfter⟩ :
      ∃ m, (before.act action).2 = before.skip m :=
    Cursor.exists_skip_act action before
  have hStands : before.Stands source.toList := by
    rw [hBefore]
    exact Cursor.stands_skip source n
  have hStands' : (before.act action).2.Stands source.toList := by
    rw [hAfter, hBefore, Cursor.skip_skip]
    exact Cursor.stands_skip source (n + m)
  have hGives := Cursor.gives_act action before
  rw [hStands.source] at hGives
  refine ⟨before, (before.act action).2, (before.act action).1,
    rfl, rfl, hStands, hStands', ?_, hGives,
    fun e => Cursor.act_of_error, ?_⟩
  · have hPosition := hStands.position
    rw [hAfter, Cursor.position_skip, hStands.source]
    omega
  · intro given hAnswer stop hShown hKind later
    rcases Cursor.act_of_shown_eof hAnswer hShown hKind with
      ⟨hRest, rfl⟩
    rw [Cursor.actAll_of_rest_nil hRest,
      Cursor.act_nextToken_of_rest_nil hRest]

/- Quoted text is also read from where no quote is. -/
example :
    let read := (Cursor.ofText "a\nb\"c").takeQuoted
    (read.1, read.2.position, read.2.line, read.2.column) =
      ("\nb", 4, 2, 3) := by
  decide +kernel

end Monkey
