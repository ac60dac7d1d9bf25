import Monkey.Proofs.Token.Places

/-
  Lines and columns as counts of characters.

  The line and column of a cursor are those of the end of what
  was read: one line for each line break, and one column for
  each character since the last of them.  So a token stands where
  the text before it ends.

  Main declarations:
    * `lineAfter`
    * `columnAfter`
    * `Cursor.Counts`
    * `Cursor.position_skip`
    * `Cursor.tokenHere_counts`
-/

namespace Monkey

------------------------------------------------------------
-- The End of a Text
------------------------------------------------------------

/- The line, counted from one, of what comes after a text. -/
def lineAfter (cs : List Char) : Nat :=
  cs.count '\n' + 1

/- The column, counted from one, of what comes after a text. -/
def columnAfter (cs : List Char) : Nat :=
  (cs.reverse.takeWhile (· != '\n')).length + 1

/- A line break ends a line, and no other character does. -/
theorem lineAfter_concat
    (cs : List Char)
    (c : Char) :
    lineAfter (cs ++ [c]) =
      if c = '\n' then lineAfter cs + 1 else lineAfter cs := by
  unfold lineAfter
  rw [List.count_append, List.count_singleton]
  by_cases hBreak : c = '\n'
  · subst hBreak
    rfl
  · simp [hBreak]

/- After a line break comes the first column. -/
theorem columnAfter_concat
    (cs : List Char)
    (c : Char) :
    columnAfter (cs ++ [c]) =
      if c = '\n' then 1 else columnAfter cs + 1 := by
  unfold columnAfter
  by_cases hBreak : c = '\n'
  · simp [hBreak]
  · simp [hBreak]

------------------------------------------------------------
-- Cursors
------------------------------------------------------------

namespace Cursor

/- The line and column of a cursor count what was read. -/
structure Counts (cur : Cursor) : Prop where
  line : cur.line = lineAfter cur.consumed.reverse
  column : cur.column = columnAfter cur.consumed.reverse

theorem counts_ofText
    (text : String) :
    (ofText text).Counts where
  line := rfl
  column := rfl

variable {cur : Cursor}

theorem Counts.step
    (h : cur.Counts) :
    cur.step.Counts := by
  unfold Cursor.step
  split
  · exact h
  · split
    · next hBreak =>
        constructor
        · simp [lineAfter_concat, hBreak, h.line]
        · simp [columnAfter_concat, hBreak]
    · next hOther =>
        constructor
        · simp [lineAfter_concat, hOther, h.line]
        · simp [columnAfter_concat, hOther, h.column]

theorem Counts.skip
    (h : cur.Counts)
    (n : Nat) :
    (cur.skip n).Counts := by
  induction n generalizing cur with
  | zero => exact h
  | succ n ih =>
      unfold Cursor.skip
      split
      · exact h
      · exact ih h.step

/- Moving on loses nothing of the text. -/
theorem step_source
    (cur : Cursor) :
    cur.step.source = cur.source := by
  unfold step source
  split
  · rfl
  · next hRest => split <;> simp [hRest]

theorem skip_source
    (n : Nat)
    (cur : Cursor) :
    (cur.skip n).source = cur.source := by
  induction n generalizing cur with
  | zero => rfl
  | succ n ih =>
      unfold skip
      split
      · rfl
      · rw [ih, step_source]

/- What was read is the text up to the position. -/
theorem take_position
    (cur : Cursor) :
    cur.source.take cur.position = cur.consumed.reverse := by
  unfold source position
  rw [← List.length_reverse, List.take_left]

/- What is left is the text from the position on. -/
theorem drop_position
    (cur : Cursor) :
    cur.source.drop cur.position = cur.rest := by
  unfold source position
  rw [← List.length_reverse, List.drop_left]

theorem position_add_rest
    (cur : Cursor) :
    cur.position + cur.rest.length = cur.source.length := by
  simp [source, position]

theorem position_skip
    (n : Nat)
    (cur : Cursor) :
    (cur.skip n).position =
      min (cur.position + n) cur.source.length := by
  have hBefore := cur.position_add_rest
  have hAfter := (cur.skip n).position_add_rest
  rw [skip_source, skip_rest, List.length_drop] at hAfter
  omega

/- With nothing left the cursor is at the end. -/
theorem position_of_rest_nil
    (hRest : cur.rest = []) :
    cur.position = cur.source.length := by
  have hLength := cur.position_add_rest
  rw [hRest] at hLength
  exact hLength

/- What was read is the text without what is left. -/
theorem read_of_rest
    {before after : List Char}
    (hSource : cur.source = before ++ after)
    (hRest : cur.rest = after) :
    cur.consumed.reverse = before := by
  unfold source at hSource
  rw [hRest] at hSource
  exact List.append_cancel_right hSource

/-
  What a token at a cursor tells of its place, and what is
  certain of the cursor behind it.
-/
theorem tokenHere_counts
    (h : cur.Counts) :
    cur.tokenHere.1.line = lineAfter cur.consumed.reverse ∧
      cur.tokenHere.1.column =
        columnAfter cur.consumed.reverse ∧
      cur.tokenHere.2.Counts ∧
      cur.tokenHere.2.source = cur.source := by
  rcases cur.tokenHere_place with ⟨hPlace, n, hAfter⟩
  simp only [Token.place, place, Prod.mk.injEq] at hPlace
  rw [hPlace.1, hPlace.2, hAfter]
  exact ⟨h.line, h.column, h.skip n, skip_source n cur⟩

end Cursor

end Monkey
