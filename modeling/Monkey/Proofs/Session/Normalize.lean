import Monkey.Proofs.Parse.Soundness
import Monkey.Proofs.Session.Fusing
import Monkey.Proofs.Session.Layout
import Monkey.Proofs.Token.Partition
import Monkey.Proofs.Token.Spacing

/-
  What the session's clean-up of its input does to programs.

  `normalize` drops the invisible characters of a text.  The
  tokens of an accepted text without such characters in its
  strings also divide what is left of it, unless something fuses.
  So its program is kept just if nothing does.

  Main declarations:
    * `Tame`
    * `Partition.without_invisible`
    * `Partition.not_fuses`
    * `sameTokens_normalize_iff`
-/

namespace Monkey

------------------------------------------------------------
-- Tame Tokens
------------------------------------------------------------

/- No token is illegal, and after each one that could begin a
   longer operator there is an expression. -/
inductive Tame : List Token → Prop
  | nil : Tame []
  | plain
      {t : Token}
      {ts : List Token}
      (hLegal : t.kind ≠ .illegal)
      (hPlain : ¬ t.kind.Leads)
      (hMore : Tame ts) :
      Tame (t :: ts)
  | leading
      {t u : Token}
      {ts : List Token}
      (hLeads : t.kind.Leads)
      (hStart : u.kind.StartsExpression)
      (hMore : Tame (u :: ts)) :
      Tame (t :: u :: ts)

instance (kind : TokenKind) : Decidable kind.Leads :=
  inferInstanceAs (Decidable (_ ∨ _))

namespace Tame

variable {t : Token}
variable {ts us : List Token}

theorem append
    (h : Tame ts)
    (h' : Tame us) :
    Tame (ts ++ us) := by
  induction h with
  | nil => exact h'
  | plain hLegal hPlain _ ih => exact .plain hLegal hPlain ih
  | leading hLeads hStart _ ih => exact .leading hLeads hStart ih

theorem tail
    (h : Tame (t :: ts)) :
    Tame ts := by
  cases h with
  | plain _ _ hMore => exact hMore
  | leading _ _ hMore => exact hMore

/- A token that leads is followed by one that starts an
   expression. -/
theorem follows
    (h : Tame (t :: ts))
    (hLeads : t.kind.Leads) :
    ∃ u rest, ts = u :: rest ∧ u.kind.StartsExpression := by
  cases h with
  | plain _ hPlain => exact absurd hLeads hPlain
  | leading _ hStart => exact ⟨_, _, rfl, hStart⟩

theorem legal
    (h : Tame ts) :
    ∀ t ∈ ts, t.kind ≠ .illegal := by
  induction h with
  | nil => exact nofun
  | plain hLegal _ _ ih =>
      exact List.forall_mem_cons.mpr ⟨hLegal, ih⟩
  | leading hLeads _ _ ih =>
      exact List.forall_mem_cons.mpr ⟨hLeads.ne_illegal, ih⟩

end Tame

/- Phrases consist of tame tokens. -/
theorem tame_compositional : Compositional Tame where
  nil := .nil
  single := by
    intro t hInner
    have hAll :
        ∀ k ∈ TokenKind.inner, k ≠ .illegal ∧ ¬ k.Leads := by
      decide
    rcases hAll t.kind hInner with ⟨hLegal, hPlain⟩
    exact .plain hLegal hPlain .nil
  append h h' := h.append h'
  leading hLeads hStart hMore := .leading hLeads hStart hMore
  enclosed := by
    intro opening closing ts hPair hInner
    have hBoth :
        ∀ k k' : TokenKind, k.closer? = some k' →
          (k ≠ .illegal ∧ ¬ k.Leads) ∧
            k' ≠ .illegal ∧ ¬ k'.Leads := by
      intro k k' h
      cases k <;> cases h <;> decide
    rcases hBoth _ _ hPair with
      ⟨⟨hLegal, hPlain⟩, hLegal', hPlain'⟩
    exact .plain hLegal hPlain
      (hInner.append (.plain hLegal' hPlain' .nil))

------------------------------------------------------------
-- Partitions of What Can Be Seen
------------------------------------------------------------

namespace Token

/- A string can be seen without its closing quote as well. -/
theorem Visible.unclosed
    {t : Token}
    (h : t.Visible)
    (hString : t.kind = .string) :
    ∀ c ∈ '"' :: t.literal.toList, isInvisible c = false := by
  intro c hMem
  apply h
  rw [spelling, if_pos hString, ← List.cons_append]
  exact List.mem_append_left _ hMem

end Token

namespace Partition

variable {cs : List Char}
variable {t : Token}
variable {ts us : List Token}

/- The same division holds for tokens in other places. -/
theorem of_alike
    (h : Partition cs ts)
    (hAlike : List.Forall₂ Token.Alike ts us) :
    Partition cs us := by
  induction h generalizing us with
  | blanks hBlanks =>
      cases hAlike
      exact .blanks hBlanks
  | token hBlanks hToken hApart _ ih =>
      cases hAlike with
      | cons hFirst hOthers =>
          rcases hFirst with ⟨hKind, hLiteral⟩
          unfold Token.WellFormed at hToken
          rw [hKind, hLiteral] at hToken ⊢
          rw [hKind] at hApart
          exact .token hBlanks hToken hApart (ih hOthers)
  | unclosed hBlanks hString hQuote =>
      cases hAlike with
      | cons hFirst hOthers =>
          cases hOthers
          rw [hFirst.2] at hQuote ⊢
          exact .unclosed hBlanks (hFirst.1 ▸ hString) hQuote

/- Behind the first token there is a division of the rest. -/
theorem rest
    {blanks more : List Char}
    (h :
      Partition
        (blanks ++ (spelling t.kind t.literal.toList ++ more))
        (t :: ts))
    (hBlanks : ∀ c ∈ blanks, isBlank c = true)
    (hToken : t.WellFormed) :
    t.kind.Apart more ∧ Partition more ts := by
  have hText :
      (blanks ++
          (spelling t.kind t.literal.toList ++ more)).dropWhile
        isBlank =
      spelling t.kind t.literal.toList ++ more :=
    dropWhile_blanks hBlanks (hToken.head_spelling more)
  generalize blanks ++ _ = text at h hText
  cases h with
  | token hBlanks' _ hApart hMore =>
      rw [dropWhile_blanks hBlanks' (hToken.head_spelling _),
        List.append_cancel_left_eq] at hText
      subst hText
      exact ⟨hApart, hMore⟩
  | unclosed hBlanks' hString =>
      -- The spelling would have to go on with a closing quote.
      have hQuote :
          ∀ c ∈ ('"' :: t.literal.toList).head?,
            isBlank c = false := by
        intro c hHead
        cases hHead
        rfl
      rw [dropWhile_blanks hBlanks' hQuote] at hText
      have hLength := congrArg List.length hText
      simp [spelling, hString] at hLength

/- No equals sign is seen first where an expression starts. -/
theorem head_visible
    {u : Token}
    (h : Partition cs (u :: ts))
    (hStart : u.kind.StartsExpression)
    (hVisible : u.Visible) :
    '=' ∉ (visible cs).head? := by
  intro hHead
  cases h with
  | unclosed hBlanks =>
      cases head_visible_of_blanks hBlanks rfl hHead
  | token hBlanks hToken =>
      have hSeen := head_visible_of_blanks hBlanks rfl hHead
      rw [visible_append, visible_eq_self hVisible] at hSeen
      rcases hToken.opens with ⟨c, more, hOpens, -⟩
      rw [hOpens] at hSeen
      cases hSeen
      rcases hToken.kind_of_equals hOpens with hKind | hKind
      · exact hStart.ne_equals.1 hKind
      · exact hStart.ne_equals.2 hKind

/- What comes to stand next to a token without the invisible
   characters is no part of it, unless the two fuse there. -/
theorem apart_visible
    {more : List Char}
    (hMore : Partition more ts)
    (hTame : Tame (t :: ts))
    (hVisible : ∀ u ∈ ts, u.Visible)
    (hToken : t.WellFormed)
    (hApart : t.kind.Apart more)
    (hNot :
      ¬ ∃ c ∈ (spelling t.kind t.literal.toList).getLast?,
        Meets c more) :
    t.kind.Apart (visible more) := by
  intro d hHead
  rw [Bool.eq_false_iff]
  intro hAbsorbs
  by_cases hLeads : t.kind.Leads
  · rcases hTame.follows hLeads with ⟨u, rest, rfl, hStart⟩
    rw [hLeads.absorbs_only hAbsorbs] at hHead
    exact hMore.head_visible hStart
      (hVisible u (List.mem_cons_self ..)) hHead
  · rcases hToken.joins_of_absorbs hLeads hAbsorbs with
      ⟨c, hLast, hJoins⟩
    apply hNot
    refine ⟨c, hLast, ?_, d, hHead, hJoins⟩
    rcases head_visible_iff.mp hHead with
      ⟨-, gap, after, rfl, hInvisible⟩
    cases gap with
    | nil =>
        rw [hApart d rfl] at hAbsorbs
        cases hAbsorbs
    | cons g gap =>
        exact ⟨g, rfl, hInvisible g (List.mem_cons_self ..)⟩

/-
  Where no characters fuse, tame tokens that can be seen also
  divide the text without its invisible characters.
-/
theorem without_invisible
    (h : Partition cs ts)
    (hTame : Tame ts)
    (hVisible : ∀ t ∈ ts, t.Visible)
    (hNot : ¬ Fuses cs) :
    Partition (visible cs) ts := by
  induction h with
  | blanks hBlanks =>
      exact .blanks (isBlank_of_mem_visible hBlanks)
  | token hBlanks hToken hApart hMore ih =>
      rcases List.forall_mem_cons.mp hVisible with
        ⟨hSeen, hOthers⟩
      rw [fuses_append_of_blank hBlanks,
        fuses_append_of_visible hSeen, not_or] at hNot
      rw [visible_append, visible_append,
        visible_eq_self hSeen]
      exact .token (isBlank_of_mem_visible hBlanks) hToken
        (hMore.apart_visible hTame hOthers hToken hApart hNot.1)
        (ih hTame.tail hOthers hNot.2)
  | @unclosed _ t hBlanks hString hQuote =>
      have hText :=
        (hVisible t (List.mem_singleton_self t)).unclosed hString
      rw [visible_append, visible_eq_self hText]
      exact .unclosed (isBlank_of_mem_visible hBlanks) hString
        hQuote

/-
  Where tokens that can be seen divide a text and also what is
  left of it without the invisible characters, nothing fuses.
-/
theorem not_fuses
    (h : Partition cs ts)
    (hVisible : ∀ t ∈ ts, t.Visible)
    (h' : Partition (visible cs) ts) :
    ¬ Fuses cs := by
  induction h with
  | @blanks blanks hBlanks =>
      rw [← List.append_nil blanks,
        fuses_append_of_blank hBlanks]
      exact nofun
  | token hBlanks hToken _ _ ih =>
      rcases List.forall_mem_cons.mp hVisible with
        ⟨hSeen, hOthers⟩
      rw [visible_append, visible_append,
        visible_eq_self hSeen] at h'
      rcases h'.rest (isBlank_of_mem_visible hBlanks) hToken with
        ⟨hApart, hMore⟩
      rw [fuses_append_of_blank hBlanks,
        fuses_append_of_visible hSeen]
      rintro (⟨c, hLast, -, d, hHead, hJoins⟩ | hFuses)
      · have hAbsorbs := hToken.absorbs_of_joins hLast hJoins
        rw [hApart d hHead] at hAbsorbs
        cases hAbsorbs
      · exact ih hOthers hMore hFuses
  | @unclosed blanks t hBlanks hString _ =>
      have hText :=
        (hVisible t (List.mem_singleton_self t)).unclosed hString
      rw [fuses_append_of_blank hBlanks, ← List.append_nil
        ('"' :: t.literal.toList), fuses_append_of_visible hText]
      rintro (⟨c, -, ⟨g, hHead, -⟩, -⟩ | hFuses)
      · cases hHead
      · cases hFuses

end Partition

------------------------------------------------------------
-- Texts
------------------------------------------------------------

namespace Cursor

variable {cur : Cursor}

/- Where the text is over, no text is read. -/
theorem nextToken_literal
    (hKind : cur.nextToken.1.kind = .eof) :
    cur.nextToken.1.literal = "" := by
  unfold nextToken tokenHere
  rw [skipBlanks_rest_of_eof hKind]
  rfl

theorem tokensWithin_literal
    {n : Nat}
    {t : Token}
    (hMem : t ∈ (cur.tokensWithin n).1)
    (hKind : t.kind = .eof) :
    t.literal = "" := by
  induction n generalizing cur with
  | zero => cases hMem
  | succ n ih =>
      by_cases hLast : cur.nextToken.1.kind = .eof
      · rw [tokensWithin_of_end hLast, List.mem_singleton]
          at hMem
        rw [hMem]
        exact nextToken_literal hLast
      · rw [tokensWithin_of_real hLast, List.mem_cons] at hMem
        rcases hMem with rfl | hMore
        · exact absurd hKind hLast
        · exact ih hMore

end Cursor

/- The token at the end of a text has no text of its own. -/
theorem literal_of_eof
    {source : String}
    {t : Token}
    (hMem : t ∈ tokens source)
    (hKind : t.kind = .eof) :
    t.literal = "" :=
  Cursor.tokensWithin_literal hMem hKind

/- The ends of texts are alike, so it is enough to compare what
   comes before. -/
theorem sameTokens_iff
    (source source' : String) :
    SameTokens source source' ↔
      List.Forall₂ Token.Alike (bodyTokens source)
        (bodyTokens source') := by
  rcases tokens_eq_bodyTokens_append source with
    ⟨stop, hTokens, hStop, -⟩
  rcases tokens_eq_bodyTokens_append source' with
    ⟨stop', hTokens', hStop', -⟩
  constructor
  · intro h
    unfold SameTokens at h
    rw [bodyTokens, bodyTokens, List.dropLast_eq_take,
      List.dropLast_eq_take, ← h.length_eq]
    exact List.forall₂_take _ h
  · intro h
    have hLast : stop ∈ tokens source := by
      rw [hTokens]
      exact List.mem_concat_self
    have hLast' : stop' ∈ tokens source' := by
      rw [hTokens']
      exact List.mem_concat_self
    have hLiteral : stop.literal = stop'.literal := by
      rw [literal_of_eof hLast hStop,
        literal_of_eof hLast' hStop']
    have hEnds : stop.Alike stop' :=
      ⟨hStop.trans hStop'.symm, hLiteral⟩
    unfold SameTokens
    rw [hTokens, hTokens']
    exact List.rel_append h (.cons hEnds .nil)

/- A text is divided into its tokens. -/
theorem partition_bodyTokens
    (source : String) :
    Partition source.toList (bodyTokens source) := by
  rcases Cursor.partition_tokensWithin (.ofText source)
      (Nat.lt_succ_self _) with
    ⟨ts, stop, hTokens, -, hPartition⟩
  have hBody : bodyTokens source = ts := by
    change (Cursor.tokensWithin _ _).1.dropLast = ts
    rw [hTokens, List.dropLast_concat]
  rw [hBody]
  exact hPartition

/- No string of a text has an invisible character. -/
def StringsVisible (source : String) : Prop :=
  ∀ t ∈ tokens source, t.kind = .string →
    ∀ c ∈ t.literal.toList, isInvisible c = false

theorem stringsVisible_of_none
    {source : String}
    (h : ∀ t ∈ tokens source, t.kind ≠ .string) :
    StringsVisible source :=
  fun t hMem hKind => absurd hKind (h t hMem)

/- All tokens of an accepted text can be seen if its strings
   can. -/
theorem StringsVisible.bodyTokens
    {source : String}
    (h : StringsVisible source)
    (hTame : Tame (bodyTokens source)) :
    ∀ t ∈ bodyTokens source, t.Visible := by
  rcases tokens_eq_bodyTokens_append source with
    ⟨stop, hTokens, -, hBody⟩
  intro t hMem
  have hListed : t ∈ tokens source := by
    rw [hTokens]
    exact List.mem_append_left _ hMem
  have hToken : t.WellFormed :=
    wellFormed_of_mem_tokens hListed (hBody t hMem)
  exact hToken.visible (hTame.legal t hMem) (h t hListed)

/- Tame tokens that can be seen are kept just if nothing
   fuses. -/
theorem sameTokens_normalize
    {source : String}
    (hTame : Tame (bodyTokens source))
    (hVisible : ∀ t ∈ bodyTokens source, t.Visible) :
    SameTokens source (normalize source) ↔
      ¬ Fuses source.toList := by
  have hWhole := partition_bodyTokens source
  have hText :
      (normalize source).toList = visible source.toList :=
    String.toList_ofList
  rw [sameTokens_iff]
  constructor
  · intro hAlike
    apply hWhole.not_fuses hVisible
    rw [← hText]
    apply (partition_bodyTokens (normalize source)).of_alike
    exact hAlike.flip.imp fun _ _ h => Token.Alike.symm h
  · intro hNot
    apply Partition.alike
    rw [hText]
    exact hWhole.without_invisible hTame hVisible hNot

/-
  An accepted text without invisible characters in its strings
  keeps its tokens without the other ones just if nothing in it
  fuses.  Then it keeps its program, and nobody can tell which of
  the two texts was submitted.
-/
theorem sameTokens_normalize_iff
    [Platform]
    (limit : Nat)
    (source : String)
    (p : Node)
    (hParse : parseWithin limit source = .ok p)
    (hStrings : StringsVisible source) :
    (SameTokens source (normalize source) ↔
      ¬ Fuses source.toList) ∧
      (¬ Fuses source.toList →
        ∃ p', parseWithin limit (normalize source) = .ok p' ∧
          p.unplaced = p'.unplaced ∧
          ∀ scope m,
            observe (answerTo (evaluate p scope m)) =
              observe (answerTo (evaluate p' scope m))) := by
  have hTame : Tame (bodyTokens source) :=
    (spells_of_parseWithin hParse).inherits tame_compositional
  have hSame :=
    sameTokens_normalize hTame (hStrings.bodyTokens hTame)
  refine ⟨hSame, fun hNot => ?_⟩
  rcases Monkey.exists_move (tokens_nodup source)
      (hSame.mpr hNot) with
    ⟨move, hMove, hMoved⟩
  have hMovedParse := parseWithin_moved limit hMove hMoved
  rw [hParse] at hMovedParse
  have hTree : p.unplaced = (p.moved move).unplaced :=
    (p.unplaced_moved hMove).symm
  refine ⟨p.moved move, hMovedParse, hTree, fun scope m => ?_⟩
  rw [← observe_answerTo_essence,
    resultEssence_evaluate_of_unplaced hTree rfl,
    observe_answerTo_essence]

/- The no-break space has a space next to it, and nothing follows
   the carriage return. -/
theorem sameTokens_normalize_spaced :
    let source := "let x\u00a0 = 5;\r"
    ¬ Fuses source.toList ∧
      ∃ p', parseWithin 4 (normalize source) = .ok p' := by
  let := Platform.usual
  intro source
  obtain ⟨p, hParse⟩ :
      ∃ p, parseWithin 4 "let x\u00a0 = 5;\r" = .ok p :=
    ⟨_, rfl⟩
  have hNone : ∀ t ∈ tokens source, t.kind ≠ .string := by
    decide +kernel
  have hSame : SameTokens source (normalize source) := by
    decide +kernel
  rcases sameTokens_normalize_iff 4 source p hParse
      (stringsVisible_of_none hNone) with
    ⟨hIff, hProgram⟩
  have hNot := hIff.mp hSame
  rcases hProgram hNot with ⟨p', hParse', -⟩
  exact ⟨hNot, p', hParse'⟩

/- A no-break space between words and a carriage return between
   numbers can be all that keeps these apart. -/
theorem normalize_fuses :
    letI := Platform.usual
    let words := "let\u00a0x = 5;"
    let numbers := "1\r2"
    ((∃ p, parse words = .ok p) ∧ StringsVisible words ∧
      ¬ SameTokens words (normalize words)) ∧
    (∃ p, parse numbers = .ok p) ∧ StringsVisible numbers ∧
      ¬ SameTokens numbers (normalize numbers) := by
  let := Platform.usual
  intro words numbers
  obtain ⟨p, hWords⟩ :
      ∃ p, parseWithin 4 "let\u00a0x = 5;" = .ok p :=
    ⟨_, rfl⟩
  obtain ⟨q, hNumbers⟩ :
      ∃ p, parseWithin 4 "1\r2" = .ok p :=
    ⟨_, rfl⟩
  have hLimit : 4 ≤ Platform.usual.nestingLimit := by
    decide
  refine ⟨⟨⟨p, parseWithin_of_le hWords nofun hLimit⟩, ?_, ?_⟩,
    ⟨q, parseWithin_of_le hNumbers nofun hLimit⟩, ?_, ?_⟩
  · apply stringsVisible_of_none
    decide +kernel
  · decide +kernel
  · apply stringsVisible_of_none
    decide +kernel
  · decide +kernel

end Monkey
