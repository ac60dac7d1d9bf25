import Monkey.Proofs.Token.Partition
import Monkey.Proofs.Token.Positions
import Monkey.Session.Highlight

/-
  What highlighting shows of a line.

  The fragments of a line are its tokens, each at its own column
  and with all that it takes of the line, and the blanks between
  them.  The width of a token is worked out anew from its text,
  which agrees with what was read since a string goes up to the
  next quote in both.  So nothing of a line is lost or moved.

  Main declarations:
    * `Highlights`
    * `Token.WrittenAs.width_eq`
    * `fragmentsFrom_cons`
    * `highlights_tokensWithin`
    * `highlightDocument_aligned`
-/

namespace Monkey

------------------------------------------------------------
-- Fragments That Show Tokens
------------------------------------------------------------

/-
  Fragments from a column on show tokens in order.  Each token is
  one fragment, which starts in the column of the token, has the
  style of its group, and holds all of its spelling; only that
  of a string without its closing quote ends the line without
  it.  All other fragments are blanks without a style.
-/
inductive Highlights :
    Nat → List Token → List Fragment → Prop
  | done
      {column : Nat} :
      Highlights column [] []
  | blanks
      {column : Nat}
      {gap : Fragment}
      {ts : List Token}
      {more : List Fragment}
      (hStyle : gap.style = "")
      (hNonempty : gap.text ≠ [])
      (hBlanks : ∀ c ∈ gap.text, isBlank c = true)
      (hMore : Highlights (column + gap.text.length) ts more) :
      Highlights column ts (gap :: more)
  | token
      {column : Nat}
      {shown : Fragment}
      {t : Token}
      {ts : List Token}
      {more : List Fragment}
      (hColumn : t.column = column)
      (hStyle :
        shown.style = (HighlightGroup.ofToken t).style)
      (hText :
        shown.text = spelling t.kind t.literal.toList)
      (hMore : Highlights (column + shown.text.length) ts more) :
      Highlights column (t :: ts) (shown :: more)
  | unclosed
      {column : Nat}
      {shown : Fragment}
      {t : Token}
      (hColumn : t.column = column)
      (hStyle :
        shown.style = (HighlightGroup.ofToken t).style)
      (hString : t.kind = .string)
      (hQuote : '"' ∉ t.literal.toList)
      (hText : shown.text = '"' :: t.literal.toList) :
      Highlights column [t] [shown]

/- The tokens of a list but the end of the text. -/
def withoutEnd (ts : List Token) : List Token :=
  ts.filter (·.kind ≠ .eof)

/- The fragment of characters without a style, if there are
   any. -/
def unstyled (cs : List Char) : List Fragment :=
  if cs = [] then
    []
  else
    [{ style := "", text := cs }]

/- The fragment of a token. -/
def Token.fragment
    (t : Token)
    (cs : List Char) :
    Fragment where
  style := (HighlightGroup.ofToken t).style
  text := cs

theorem flatMap_unstyled
    (cs : List Char) :
    (unstyled cs).flatMap Fragment.text = cs := by
  unfold unstyled
  split
  · next hNone =>
      rw [hNone]
      rfl
  · simp

theorem Highlights.unstyled_append
    {column : Nat}
    {cs : List Char}
    {ts : List Token}
    {more : List Fragment}
    (hBlanks : ∀ c ∈ cs, isBlank c = true)
    (hMore : Highlights (column + cs.length) ts more) :
    Highlights column ts (unstyled cs ++ more) := by
  unfold unstyled
  split
  · next hNone =>
      subst hNone
      exact hMore
  · next hNonempty =>
      exact .blanks rfl hNonempty hBlanks hMore

------------------------------------------------------------
-- The Width of a Token
------------------------------------------------------------

/-
  How a token is written before what follows it: as it is
  spelled, or as a string that goes to the end and has no closing
  quote.
-/
inductive Token.WrittenAs
    (t : Token)
    (following : List Char) :
    List Char → Prop
  | spelled :
      WrittenAs t following (spelling t.kind t.literal.toList)
  | unclosed
      (hString : t.kind = .string)
      (hQuote : '"' ∉ t.literal.toList)
      (hEnd : following = []) :
      WrittenAs t following ('"' :: t.literal.toList)

namespace Token.WrittenAs

variable {t : Token}
variable {cs following line : List Char}

/- The width is the number of characters that are taken. -/
theorem width_eq
    (h : t.WrittenAs following cs)
    {start : Nat}
    (hLine : line.drop start = cs ++ following) :
    t.width line start = cs.length := by
  have hBehind :
      line.drop (start + 1 + t.literal.length) =
        (cs ++ following).drop (t.literal.length + 1) := by
    rw [← hLine, List.drop_drop]
    congr 1
    omega
  simp only [Token.width, hBehind]
  cases h with
  | spelled =>
      by_cases hString : t.kind = .string
      · simp [spelling, hString, ← String.length_toList]
      · simp [spelling, hString, ← String.length_toList]
  | unclosed hString hQuote hEnd =>
      simp [hString, hEnd, ← String.length_toList]

/- What a cursor reads here is written here. -/
theorem of_tokenHere
    {cur : Cursor}
    {c : Char}
    {more : List Char}
    (hRest : cur.rest = c :: more)
    (hBlank : isBlank c = false) :
    ∃ cs, cur.rest = cs ++ cur.tokenHere.2.rest ∧
      cur.tokenHere.1.WrittenAs cur.tokenHere.2.rest cs := by
  rcases Cursor.tokenHere_divides hRest with
    ⟨hSpelled, -⟩ | ⟨hString, hEnd, hOpen⟩
  · exact ⟨_, hSpelled, .spelled⟩
  · have hToken := Cursor.tokenHere_wellFormed hRest hBlank
    refine ⟨_, ?_,
      .unclosed hString (hToken.quote_not_mem hString) hEnd⟩
    rw [hEnd, List.append_nil, hOpen]

/- So a token shows as one fragment, and other ones follow. -/
theorem highlights
    (h : t.WrittenAs following cs)
    {column : Nat}
    {ts : List Token}
    {more : List Fragment}
    (hColumn : t.column = column)
    (hMore : Highlights (column + cs.length) ts more)
    (hEnd : following = [] → ts = [] ∧ more = []) :
    Highlights column (t :: ts) (t.fragment cs :: more) := by
  cases h with
  | spelled => exact .token hColumn rfl rfl hMore
  | unclosed hString hQuote hNothing =>
      rcases hEnd hNothing with ⟨rfl, rfl⟩
      exact .unclosed hColumn rfl hString hQuote rfl

end Token.WrittenAs

------------------------------------------------------------
-- Fragments of a Line
------------------------------------------------------------

theorem fragmentsFrom_nil
    (line : List Char)
    (position : Nat) :
    fragmentsFrom line position [] =
      unstyled (line.drop position) := by
  unfold fragmentsFrom unstyled
  by_cases hMore : position < line.length
  · rw [if_pos hMore, if_neg]
    simpa using hMore
  · rw [if_neg hMore, if_pos]
    simpa using hMore

/- The first of the tokens comes after what lies before it. -/
theorem fragmentsFrom_cons
    {line gap cs following : List Char}
    {position : Nat}
    {t : Token}
    (hLine : line.drop position = gap ++ (cs ++ following))
    (hColumn : t.column = position + gap.length + 1)
    (hNonempty : cs ≠ [])
    (hWritten : t.WrittenAs following cs)
    (ts : List Token) :
    fragmentsFrom line position (t :: ts) =
      unstyled gap ++ t.fragment cs ::
        fragmentsFrom line
          (position + gap.length + cs.length) ts := by
  have hStart : t.column - 1 = position + gap.length := by
    omega
  have hHere :
      line.drop (position + gap.length) = cs ++ following := by
    rw [← List.drop_drop, hLine, List.drop_left]
  have hWidth :
      t.width line (position + gap.length) = cs.length :=
    hWritten.width_eq hHere
  have hGap :
      slice line position (position + gap.length) = gap := by
    unfold slice
    rw [hLine, Nat.add_sub_cancel_left, List.take_left]
  have hText :
      slice line (position + gap.length)
          (position + gap.length + cs.length) = cs := by
    unfold slice
    rw [hHere, Nat.add_sub_cancel_left, List.take_left]
  rw [fragmentsFrom]
  simp only [hStart, hWidth, hGap, hText]
  rw [if_neg (mt List.length_eq_zero_iff.mp hNonempty)]
  by_cases hNone : gap = []
  · subst hNone
    rw [if_neg (by simp)]
    rfl
  · have hBefore : position < position + gap.length :=
      Nat.lt_add_of_pos_right (List.length_pos_iff.mpr hNone)
    rw [if_pos hBefore, unstyled, if_neg hNone]
    rfl

------------------------------------------------------------
-- Reading a Line
------------------------------------------------------------

namespace Cursor

variable {cur : Cursor}

/- On a line of its own the column tells the position. -/
theorem Counts.column_eq
    (h : cur.Counts)
    (hLine : '\n' ∉ cur.source) :
    cur.column = cur.position + 1 := by
  have hRead : ∀ c ∈ cur.consumed, (c != '\n') = true := by
    intro c hMem
    rw [bne_iff_ne]
    rintro rfl
    exact hLine
      (List.mem_append_left _ (List.mem_reverse.mpr hMem))
  have hAll :
      (cur.consumed ++ []).takeWhile (· != '\n') =
        cur.consumed :=
    takeWhile_of_end hRead nofun
  rw [List.append_nil] at hAll
  rw [h.column, columnAfter, List.reverse_reverse, hAll,
    position]

/- A cursor that has moved over some characters is as many
   further. -/
theorem position_of_rest
    {after : Cursor}
    {taken : List Char}
    (hSource : after.source = cur.source)
    (hRest : cur.rest = taken ++ after.rest) :
    after.position = cur.position + taken.length := by
  have hBefore := cur.position_add_rest
  have hAfter := after.position_add_rest
  have hLength := congrArg List.length hRest
  rw [List.length_append] at hLength
  rw [hSource] at hAfter
  omega

theorem nextToken_counts
    (hCounts : cur.Counts) :
    cur.nextToken.2.Counts ∧
      cur.nextToken.2.source = cur.source := by
  rcases tokenHere_counts (hCounts.skip _) with
    ⟨-, -, hBehind, hSource⟩
  exact ⟨hBehind, hSource.trans (skip_source ..)⟩

/- The next token of a line is written in its column, with only
   blanks before it. -/
theorem nextToken_written
    (hCounts : cur.Counts)
    (hLine : '\n' ∉ cur.source)
    (hKind : cur.nextToken.1.kind ≠ .eof) :
    ∃ gap cs,
      cur.rest = gap ++ (cs ++ cur.nextToken.2.rest) ∧
        (∀ c ∈ gap, isBlank c = true) ∧
        cs ≠ [] ∧
        cur.nextToken.1.WrittenAs cur.nextToken.2.rest cs ∧
        cur.nextToken.1.column =
          cur.position + gap.length + 1 := by
  have hSplit :
      cur.rest =
        cur.rest.takeWhile isBlank ++ cur.skipBlanks.rest := by
    rw [skipBlanks_rest]
    exact List.takeWhile_append_dropWhile.symm
  have hHere : cur.skipBlanks.Counts := hCounts.skip _
  have hSource : cur.skipBlanks.source = cur.source :=
    skip_source ..
  cases hRest : cur.skipBlanks.rest with
  | nil => exact absurd (tokenHere_eof hRest) hKind
  | cons c more =>
      have hHead := head_of_dropWhile isBlank cur.rest
      rw [← skipBlanks_rest, hRest] at hHead
      rcases Token.WrittenAs.of_tokenHere hRest (hHead c rfl) with
        ⟨cs, hText, hWritten⟩
      refine ⟨cur.rest.takeWhile isBlank, cs,
        hText ▸ hSplit,
        List.all_eq_true.mp List.all_takeWhile, ?_, hWritten,
        ?_⟩
      · rintro rfl
        have hShorter :=
          tokenHere_shorter (ne_of_eq_of_ne hRest nofun)
        rw [hText] at hShorter
        exact absurd hShorter (Nat.lt_irrefl _)
      · rw [← position_of_rest hSource hSplit,
          ← hHere.column_eq (hSource ▸ hLine), hHere.column]
        exact (tokenHere_counts hHere).2.1

theorem withoutEnd_of_eof
    (hKind : cur.nextToken.1.kind = .eof)
    (n : Nat) :
    withoutEnd (cur.tokensWithin (n + 1)).1 = [] := by
  rw [tokensWithin_succ_of_eof hKind]
  exact List.filter_cons_of_neg (by simp [hKind])

theorem withoutEnd_of_ne
    (hKind : cur.nextToken.1.kind ≠ .eof)
    (n : Nat) :
    withoutEnd (cur.tokensWithin (n + 1)).1 =
      cur.nextToken.1 ::
        withoutEnd (cur.nextToken.2.tokensWithin n).1 := by
  rw [tokensWithin_succ hKind]
  exact List.filter_cons_of_pos (by simp [hKind])

/- At the end no more tokens are listed. -/
theorem withoutEnd_of_rest_nil
    (hRest : cur.rest = [])
    (n : Nat) :
    withoutEnd (cur.tokensWithin n).1 = [] := by
  cases n with
  | zero => rfl
  | succ n =>
      have hKind : cur.nextToken.1.kind = .eof :=
        nextToken_of_blanks (by simp [hRest])
      exact withoutEnd_of_eof hKind n

/-
  The fragments of what is left of a line, and of its tokens, are
  all of it, and show these tokens.
-/
theorem highlights_tokensWithin
    {n : Nat}
    (cur : Cursor)
    (hCounts : cur.Counts)
    (hLine : '\n' ∉ cur.source)
    (hEnough : cur.rest.length < n) :
    let ts := withoutEnd (cur.tokensWithin n).1
    let fragments := fragmentsFrom cur.source cur.position ts
    fragments.flatMap Fragment.text = cur.rest ∧
      Highlights (cur.position + 1) ts fragments := by
  induction n generalizing cur with
  | zero => exact absurd hEnough (Nat.not_lt_zero _)
  | succ n ih =>
      by_cases hKind : cur.nextToken.1.kind = .eof
      · have hBlanks : ∀ c ∈ cur.rest, isBlank c = true :=
          blanks_of_tokensWithin hKind
            (tokensWithin_of_end (n := n) hKind)
        simp only [withoutEnd_of_eof hKind, fragmentsFrom_nil,
          drop_position]
        refine ⟨flatMap_unstyled _, ?_⟩
        rw [← List.append_nil (unstyled _)]
        exact .unstyled_append hBlanks .done
      · rcases nextToken_written hCounts hLine hKind with
          ⟨gap, cs, hRest, hBlanks, hNonempty, hWritten,
            hColumn⟩
        rcases nextToken_counts hCounts with ⟨hBehind, hSource⟩
        have hShorter := nextToken_shorter hKind
        have hPosition :
            cur.nextToken.2.position =
              cur.position + gap.length + cs.length := by
          rw [← List.append_assoc] at hRest
          rw [position_of_rest hSource hRest,
            List.length_append, Nat.add_assoc]
        rcases ih cur.nextToken.2 hBehind (hSource ▸ hLine)
            (by omega) with
          ⟨hText, hMore⟩
        have hFragments :=
          fragmentsFrom_cons (cur.drop_position.trans hRest)
            hColumn hNonempty hWritten
            (withoutEnd (cur.nextToken.2.tokensWithin n).1)
        rw [hSource, hPosition] at hText hMore
        simp only [withoutEnd_of_ne hKind, hFragments]
        constructor
        · rw [List.flatMap_append, flatMap_unstyled,
            List.flatMap_cons, hText, hRest]
          rfl
        · refine .unstyled_append hBlanks
            (hWritten.highlights ?_ ?_ ?_)
          · rw [hColumn]
            omega
          · convert hMore using 1
            omega
          · -- With nothing left there are neither tokens nor
            -- fragments.
            intro hEnd
            have hNone := withoutEnd_of_rest_nil hEnd n
            refine ⟨hNone, ?_⟩
            rw [hNone, fragmentsFrom_nil, ← hPosition,
              ← hSource, drop_position, hEnd]
            rfl

end Cursor

------------------------------------------------------------
-- Lines of a Text
------------------------------------------------------------

/- The parts of a text are those between the occurrences of a
   character. -/
theorem splitChar_eq_splitOn
    (mark : Char)
    (cs : List Char) :
    splitChar mark cs = cs.splitOn mark := by
  induction cs with
  | nil => exact (List.splitOn_nil mark).symm
  | cons c cs ih =>
      rw [splitChar, ih, List.splitOn_cons_eq_if_modifyHead]
      by_cases hMark : c = mark
      · rw [if_pos hMark, if_pos (beq_iff_eq.mpr hMark)]
      · rw [if_neg hMark, if_neg (mt beq_iff_eq.mp hMark)]
        rcases List.exists_cons_of_ne_nil
            (List.splitOn_ne_nil mark cs) with
          ⟨part, parts, hParts⟩
        rw [hParts]
        rfl

/- None of the parts holds the character. -/
theorem not_mem_of_mem_splitOn
    {mark : Char}
    {cs part : List Char}
    (h : part ∈ cs.splitOn mark) :
    mark ∉ part := by
  induction cs generalizing part with
  | nil =>
      rw [List.splitOn_nil, List.mem_singleton] at h
      rw [h]
      exact List.not_mem_nil
  | cons c cs ih =>
      rw [List.splitOn_cons_eq_if_modifyHead] at h
      split at h
      · rcases List.mem_cons.mp h with rfl | h
        · exact List.not_mem_nil
        · exact ih h
      · next hOther =>
          rcases List.exists_cons_of_ne_nil
              (List.splitOn_ne_nil mark cs) with
            ⟨first, others, hParts⟩
          rw [hParts, List.modifyHead_cons] at h
          rcases List.mem_cons.mp h with rfl | h
          · rintro (_ | ⟨_, hMem⟩)
            · exact hOther BEq.rfl
            · exact ih (hParts ▸ List.mem_cons_self) hMem
          · exact ih (hParts ▸ List.mem_cons_of_mem _ h)

/- A line of a text is highlighted on its own. -/
theorem highlightDocument_of_line
    {text line : List Char}
    {number : Nat}
    (hLine : (text.splitOn '\n')[number]? = some line) :
    highlightDocument text number = some (highlightLine line) := by
  rcases List.getElem?_eq_some_iff.mp hLine with ⟨hNumber, -⟩
  unfold highlightDocument
  simp only [splitChar_eq_splitOn]
  rw [if_neg (by omega), if_neg (by omega), if_neg (by omega),
    Int.toNat_natCast, hLine]
  rfl

/- A line with something in it shows as its tokens. -/
theorem highlightLine_aligned
    {line : List Char}
    (hLine : '\n' ∉ line)
    (hNonempty : line ≠ []) :
    (highlightLine line).flatMap Fragment.text = line ∧
      Highlights 1 (withoutEnd (tokens (String.ofList line)))
        (highlightLine line) := by
  let ts := withoutEnd (tokens (String.ofList line))
  have hSource :
      (Cursor.ofText (String.ofList line)).source = line :=
    String.toList_ofList
  have hRead :=
    Cursor.highlights_tokensWithin
      (.ofText (String.ofList line)) (Cursor.counts_ofText _)
      (hSource.symm ▸ hLine) (Nat.lt_succ_self _)
  rw [hSource] at hRead
  have hText :
      (fragmentsFrom line 0 ts).flatMap Fragment.text = line :=
    hRead.1.trans String.toList_ofList
  have hTokens : Highlights 1 ts (fragmentsFrom line 0 ts) :=
    hRead.2
  have hSome : ¬ (fragmentsFrom line 0 ts).isEmpty := by
    intro hNone
    rw [List.isEmpty_iff.mp hNone] at hText
    exact hNonempty hText.symm
  have hShown : highlightLine line = fragmentsFrom line 0 ts := by
    unfold highlightLine
    rw [if_neg (mt List.isEmpty_iff.mp hNonempty)]
    exact if_neg hSome
  rw [hShown]
  exact ⟨hText, hTokens⟩

/-
  For every line of a text there are fragments.  One after
  another they are the line, and they show its tokens but the end
  at their columns, with blanks between them.  An empty line has
  a single fragment with nothing in it.
-/
theorem highlightDocument_aligned
    (text line : List Char)
    (number : Nat)
    (hLine : (text.splitOn '\n')[number]? = some line) :
    ∃ fragments,
      highlightDocument text number = some fragments ∧
        fragments.flatMap Fragment.text = line ∧
        (line = [] →
          fragments = [{ style := "", text := [] }]) ∧
        (line ≠ [] →
          Highlights 1
            (withoutEnd (tokens (String.ofList line)))
            fragments) := by
  refine ⟨highlightLine line,
    highlightDocument_of_line hLine, ?_⟩
  by_cases hEmpty : line = []
  · subst hEmpty
    exact ⟨rfl, fun _ => rfl, fun h => absurd rfl h⟩
  · have hLineOnly : '\n' ∉ line :=
      not_mem_of_mem_splitOn (List.mem_of_getElem? hLine)
    rcases highlightLine_aligned hLineOnly hEmpty with
      ⟨hText, hTokens⟩
    exact ⟨hText, fun h => absurd h hEmpty, fun _ => hTokens⟩

/- The second line of a text, with a string left open. -/
theorem highlightDocument_aligned_second :
    let line := "len \"ab".toList
    ("let a;\nlen \"ab".toList.splitOn '\n')[1]? = some line ∧
      ∃ fragments,
        highlightDocument "let a;\nlen \"ab".toList (1 : Nat) =
            some fragments ∧
          fragments.flatMap Fragment.text = line ∧
          (line = [] →
            fragments = [{ style := "", text := [] }]) ∧
          (line ≠ [] →
            Highlights 1
              (withoutEnd (tokens (String.ofList line)))
              fragments) := by
  intro line
  have hLine :
      ("let a;\nlen \"ab".toList.splitOn '\n')[1]? =
        some line := by
    decide +kernel
  exact ⟨hLine, highlightDocument_aligned _ line 1 hLine⟩

/- Its fragments are the builtin, the blank, and the string
   with the one quote that it has. -/
example :
    (highlightDocument "let a;\nlen \"ab".toList 1).map
        (·.map fun f => (f.style, String.ofList f.text)) =
      some [
        ((HighlightGroup.builtin).style, "len"),
        ("", " "),
        ((HighlightGroup.string).style, "\"ab")] := by
  decide +kernel

end Monkey
