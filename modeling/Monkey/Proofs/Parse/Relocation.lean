import Monkey.Proofs.Parse.Completeness
import Monkey.Proofs.Parse.Soundness
import Monkey.Proofs.Syntax.Essence
import Monkey.Proofs.Token.Respelling

/-
  Spellings in other places.

  What tokens spell does not depend on where they stand: tokens
  of the same kinds and texts spell the same phrase.  With the
  re-spelling of tokens, every spelling of a program is that of
  a text, which the parser accepts.

  Main declarations:
    * `Spells.relocate`
    * `Spells.exists_program_of_alike`
    * `exists_text_of_spells`
-/

namespace Monkey

------------------------------------------------------------
-- Lists Side by Side
------------------------------------------------------------

/- A list that is alike to two in a row consists of two. -/
theorem exists_append_of_alike
    {ts ts' us : List Token}
    (h : List.Forall₂ Token.Alike (ts ++ ts') us) :
    ∃ vs vs',
      us = vs ++ vs' ∧ List.Forall₂ Token.Alike ts vs ∧
        List.Forall₂ Token.Alike ts' vs' := by
  induction ts generalizing us with
  | nil => exact ⟨[], us, rfl, .nil, h⟩
  | cons t rest ih =>
      cases h with
      | cons hFirst hMore =>
          rcases ih hMore with ⟨vs, vs', rfl, hRest, hLast⟩
          exact ⟨_ :: vs, vs', rfl, .cons hFirst hRest, hLast⟩

/- A list that is alike to one with a first token has one. -/
theorem exists_cons_of_alike
    {t : Token}
    {ts us : List Token}
    (h : List.Forall₂ Token.Alike (t :: ts) us) :
    ∃ u vs,
      us = u :: vs ∧ t.Alike u ∧
        List.Forall₂ Token.Alike ts vs := by
  cases h with
  | cons hFirst hMore => exact ⟨_, _, rfl, hFirst, hMore⟩

/- A list that is alike to no tokens has none. -/
theorem eq_nil_of_alike
    {us : List Token}
    (h : List.Forall₂ Token.Alike [] us) :
    us = [] := by
  cases h
  rfl

/- A list that is alike to a single token is a single one. -/
theorem exists_single_of_alike
    {t : Token}
    {us : List Token}
    (h : List.Forall₂ Token.Alike [t] us) :
    ∃ u, us = [u] ∧ t.Alike u := by
  rcases exists_cons_of_alike h with ⟨u, vs, rfl, hFirst, hRest⟩
  rw [eq_nil_of_alike hRest]
  exact ⟨u, rfl, hFirst⟩

/- A list that is alike to tokens between two others is one. -/
theorem exists_enclosed_of_alike
    {opening closing : Token}
    {ts us : List Token}
    (h :
      List.Forall₂ Token.Alike
        (opening :: (ts ++ [closing])) us) :
    ∃ first vs last,
      us = first :: (vs ++ [last]) ∧ opening.Alike first ∧
        List.Forall₂ Token.Alike ts vs ∧
          closing.Alike last := by
  rcases exists_cons_of_alike h with
    ⟨first, rest, rfl, hFirst, hRest⟩
  rcases exists_append_of_alike hRest with
    ⟨vs, ends, rfl, hInner, hEnds⟩
  rcases exists_single_of_alike hEnds with ⟨last, rfl, hLast⟩
  exact ⟨first, vs, last, rfl, hFirst, hInner, hLast⟩

/- What holds of the kinds of tokens holds of those alike. -/
theorem forall_kind_of_alike
    {P : TokenKind → Prop}
    {ts us : List Token}
    (hAlike : List.Forall₂ Token.Alike ts us)
    (h : ∀ t ∈ ts, P t.kind) :
    ∀ u ∈ us, P u.kind := by
  induction hAlike with
  | nil => exact h
  | cons hFirst _ ih =>
      rw [List.forall_mem_cons] at h ⊢
      exact ⟨hFirst.1 ▸ h.1, ih h.2⟩

------------------------------------------------------------
-- Phrases
------------------------------------------------------------

variable {own own' : Token → Token → Prop}

/- Names are spelled alike in another place. -/
theorem SpellsNames.relocate
    {ids : List Identifier}
    {ts us : List Token}
    (h : SpellsNames own ids ts)
    (hAlike : List.Forall₂ Token.Alike ts us)
    (hMoved : ∀ u t t', own u t → t.Alike t' → own' u t') :
    SpellsNames own' ids us := by
  induction h generalizing us with
  | none =>
      rw [eq_nil_of_alike hAlike]
      exact .none
  | one hName hOwn =>
      rcases exists_single_of_alike hAlike with ⟨t, rfl, hToken⟩
      rw [hToken.2]
      exact .one (hToken.1 ▸ hName) (hMoved _ _ _ hOwn hToken)
  | more hName hOwn hComma _ ih =>
      rcases exists_cons_of_alike hAlike with
        ⟨t, rest, rfl, hToken, hRest⟩
      rcases exists_cons_of_alike hRest with
        ⟨comma, vs, rfl, hSeparator, hMore⟩
      rw [hToken.2]
      exact .more (hToken.1 ▸ hName) (hMoved _ _ _ hOwn hToken)
        (hSeparator.1 ▸ hComma) (ih hMore)

/- A statement that is over before some tokens is so before
   others like them. -/
theorem Node.EndsBefore.relocate
    {s : Node}
    {ts us : List Token}
    (h : s.EndsBefore ts)
    (hAlike : List.Forall₂ Token.Alike ts us) :
    s.EndsBefore us := by
  refine ⟨fun hReturn => ?_, ?_⟩
  · rw [h.1 hReturn] at hAlike
    exact eq_nil_of_alike hAlike
  · intro u hHead
    cases hAlike with
    | nil => cases hHead
    | cons hFirst _ =>
        cases hHead
        rw [← hFirst.1]
        exact h.2 _ rfl

/- A phrase is spelled alike in another place, if its nodes may
   keep the same tokens there. -/
theorem Spells.relocate
    {phrase : Phrase}
    {ts us : List Token}
    (h : Spells own phrase ts)
    (hAlike : List.Forall₂ Token.Alike ts us)
    (hMoved : ∀ u t t', own u t → t.Alike t' → own' u t') :
    Spells own' phrase us := by
  induction h generalizing us with
  | identifier hKind hOwn =>
      rcases exists_single_of_alike hAlike with ⟨t, rfl, hToken⟩
      rw [hToken.2]
      exact .identifier (hToken.1 ▸ hKind)
        (hMoved _ _ _ hOwn hToken)
  | integer hKind hDigits hOwn =>
      rcases exists_single_of_alike hAlike with ⟨t, rfl, hToken⟩
      rw [hToken.2] at hDigits ⊢
      exact .integer (hToken.1 ▸ hKind) hDigits
        (hMoved _ _ _ hOwn hToken)
  | string hKind hOwn =>
      rcases exists_single_of_alike hAlike with ⟨t, rfl, hToken⟩
      rw [hToken.2]
      exact .string (hToken.1 ▸ hKind) (hMoved _ _ _ hOwn hToken)
  | boolTrue hKind hOwn =>
      rcases exists_single_of_alike hAlike with ⟨t, rfl, hToken⟩
      exact .boolTrue (hToken.1 ▸ hKind)
        (hMoved _ _ _ hOwn hToken)
  | boolFalse hKind hOwn =>
      rcases exists_single_of_alike hAlike with ⟨t, rfl, hToken⟩
      exact .boolFalse (hToken.1 ▸ hKind)
        (hMoved _ _ _ hOwn hToken)
  | prefixOp hKind hOwn _ hStrength ih =>
      rcases exists_cons_of_alike hAlike with
        ⟨t, rest, rfl, hToken, hRest⟩
      rw [hToken.2]
      exact .prefixOp (hToken.1 ▸ hKind)
        (hMoved _ _ _ hOwn hToken) (ih hRest)
        hStrength
  | infixOp hKind hOwn _ hLeftStrength _ hRightStrength
      ihLeft ihRight =>
      rcases exists_append_of_alike hAlike with
        ⟨ls, vs, rfl, hLeft, hOthers⟩
      rcases exists_cons_of_alike hOthers with
        ⟨t, rs, rfl, hToken, hRight⟩
      rw [hToken.1] at hKind hLeftStrength hRightStrength
      rw [hToken.1, hToken.2]
      exact .infixOp hKind
        (hMoved _ _ _ hOwn hToken) (ihLeft hLeft)
        hLeftStrength (ihRight hRight) hRightStrength
  | group hOpening _ hClosing ih =>
      rcases exists_enclosed_of_alike hAlike with
        ⟨first, vs, last, rfl, hFirst, hInner, hLast⟩
      exact .group (hFirst.1 ▸ hOpening) (ih hInner)
        (hLast.1 ▸ hClosing)
  | ifElse hWord hOwn hOpening _ hClosing _ _ ihCondition
      ihConsequence ihOtherwise =>
      rcases exists_cons_of_alike hAlike with
        ⟨word, vs, rfl, hFirst, hAfterWord⟩
      rcases exists_cons_of_alike hAfterWord with
        ⟨opening, vs, rfl, hSecond, hAfterOpening⟩
      rcases exists_append_of_alike hAfterOpening with
        ⟨cs, vs, rfl, hCondition, hAfterCondition⟩
      rcases exists_cons_of_alike hAfterCondition with
        ⟨closing, vs, rfl, hLast, hBlocks⟩
      rcases exists_append_of_alike hBlocks with
        ⟨ts, es, rfl, hConsequence, hOtherwise⟩
      exact .ifElse (hFirst.1 ▸ hWord) (hMoved _ _ _ hOwn hFirst)
        (hSecond.1 ▸ hOpening) (ihCondition hCondition)
        (hLast.1 ▸ hClosing) (ihConsequence hConsequence)
        (ihOtherwise hOtherwise)
  | function hWord hOwn hOpening hParams hClosing _ ihBody =>
      rcases exists_cons_of_alike hAlike with
        ⟨word, vs, rfl, hFirst, hAfterWord⟩
      rcases exists_cons_of_alike hAfterWord with
        ⟨opening, vs, rfl, hSecond, hAfterOpening⟩
      rcases exists_append_of_alike hAfterOpening with
        ⟨ns, vs, rfl, hNames, hAfterNames⟩
      rcases exists_cons_of_alike hAfterNames with
        ⟨closing, ts, rfl, hLast, hBody⟩
      exact .function (hFirst.1 ▸ hWord)
        (hMoved _ _ _ hOwn hFirst)
        (hSecond.1 ▸ hOpening) (hParams.relocate hNames hMoved)
        (hLast.1 ▸ hClosing) (ihBody hBody)
  | call _ hOpening hOwn _ hClosing ihCallee ihArgs =>
      rcases exists_append_of_alike hAlike with
        ⟨fs, vs, rfl, hCallee, hOthers⟩
      rcases exists_enclosed_of_alike hOthers with
        ⟨first, ts, last, rfl, hFirst, hArgs, hLast⟩
      exact .call (ihCallee hCallee) (hFirst.1 ▸ hOpening)
        (hMoved _ _ _ hOwn hFirst)
        (ihArgs hArgs) (hLast.1 ▸ hClosing)
  | array hOpening hOwn _ hClosing ih =>
      rcases exists_enclosed_of_alike hAlike with
        ⟨first, ts, last, rfl, hFirst, hElements, hLast⟩
      exact .array (hFirst.1 ▸ hOpening)
        (hMoved _ _ _ hOwn hFirst) (ih hElements)
        (hLast.1 ▸ hClosing)
  | index _ hOpening hOwn _ hClosing ihLeft ihSubscript =>
      rcases exists_append_of_alike hAlike with
        ⟨ls, vs, rfl, hLeft, hOthers⟩
      rcases exists_enclosed_of_alike hOthers with
        ⟨first, ts, last, rfl, hFirst, hSubscript, hLast⟩
      exact .index (ihLeft hLeft) (hFirst.1 ▸ hOpening)
        (hMoved _ _ _ hOwn hFirst)
        (ihSubscript hSubscript) (hLast.1 ▸ hClosing)
  | hash hOpening hOwn _ hClosing ih =>
      rcases exists_enclosed_of_alike hAlike with
        ⟨first, ts, last, rfl, hFirst, hPairs, hLast⟩
      exact .hash (hFirst.1 ▸ hOpening)
        (hMoved _ _ _ hOwn hFirst) (ih hPairs)
        (hLast.1 ▸ hClosing)
  | noAlternative =>
      rw [eq_nil_of_alike hAlike]
      exact .noAlternative
  | alternative hWord _ ih =>
      rcases exists_cons_of_alike hAlike with
        ⟨word, ts, rfl, hFirst, hBranch⟩
      exact .alternative (hFirst.1 ▸ hWord) (ih hBranch)
  | block hOpening hOwn _ hClosing ih =>
      rcases exists_enclosed_of_alike hAlike with
        ⟨first, ts, last, rfl, hFirst, hStatements, hLast⟩
      exact .block (hFirst.1 ▸ hOpening)
        (hMoved _ _ _ hOwn hFirst)
        (ih hStatements) (hLast.1 ▸ hClosing)
  | noItems =>
      rw [eq_nil_of_alike hAlike]
      exact .noItems
  | items _ _ ihFirst ihMore =>
      rcases exists_append_of_alike hAlike with
        ⟨ts, vs, rfl, hFirst, hMore⟩
      exact .items (ihFirst hFirst) (ihMore hMore)
  | noFurtherItems =>
      rw [eq_nil_of_alike hAlike]
      exact .noFurtherItems
  | furtherItems hComma _ _ ihFirst ihMore =>
      rcases exists_cons_of_alike hAlike with
        ⟨comma, vs, rfl, hSeparator, hOthers⟩
      rcases exists_append_of_alike hOthers with
        ⟨ts, vs, rfl, hFirst, hMore⟩
      exact .furtherItems (hSeparator.1 ▸ hComma)
        (ihFirst hFirst) (ihMore hMore)
  | noPairs =>
      rw [eq_nil_of_alike hAlike]
      exact .noPairs
  | lastPair _ hColon _ ihKey ihValue =>
      rcases exists_append_of_alike hAlike with
        ⟨ks, vs, rfl, hKey, hOthers⟩
      rcases exists_cons_of_alike hOthers with
        ⟨colon, vs, rfl, hSeparator, hValue⟩
      exact .lastPair (ihKey hKey) (hSeparator.1 ▸ hColon)
        (ihValue hValue)
  | pairThen _ hColon _ hComma _ ihKey ihValue ihMore =>
      rcases exists_append_of_alike hAlike with
        ⟨ks, vs, rfl, hKey, hAfterKey⟩
      rcases exists_cons_of_alike hAfterKey with
        ⟨colon, vs, rfl, hSeparator, hAfterColon⟩
      rcases exists_append_of_alike hAfterColon with
        ⟨values, vs, rfl, hValue, hAfterValue⟩
      rcases exists_cons_of_alike hAfterValue with
        ⟨comma, us, rfl, hEnd, hMore⟩
      exact .pairThen (ihKey hKey) (hSeparator.1 ▸ hColon)
        (ihValue hValue) (hEnd.1 ▸ hComma) (ihMore hMore)
  | letStmt hWord hOwn hName hOwnName hAssign _ ih =>
      rcases exists_cons_of_alike hAlike with
        ⟨word, vs, rfl, hFirst, hAfterWord⟩
      rcases exists_cons_of_alike hAfterWord with
        ⟨name, vs, rfl, hSecond, hAfterName⟩
      rcases exists_cons_of_alike hAfterName with
        ⟨assign, ts, rfl, hThird, hValue⟩
      rw [hSecond.2]
      exact .letStmt (hFirst.1 ▸ hWord)
        (hMoved _ _ _ hOwn hFirst)
        (hSecond.1 ▸ hName)
        (hMoved _ _ _ hOwnName hSecond) (hThird.1 ▸ hAssign)
        (ih hValue)
  | bareReturn hWord hOwn =>
      rcases exists_single_of_alike hAlike with ⟨t, rfl, hToken⟩
      exact .bareReturn (hToken.1 ▸ hWord)
        (hMoved _ _ _ hOwn hToken)
  | returnStmt hWord hOwn _ ih =>
      rcases exists_cons_of_alike hAlike with
        ⟨word, ts, rfl, hFirst, hValue⟩
      exact .returnStmt (hFirst.1 ▸ hWord)
        (hMoved _ _ _ hOwn hFirst) (ih hValue)
  | exprStmt _ hOwn ih =>
      rcases exists_cons_of_alike hAlike with
        ⟨first, ts, rfl, hFirst, hRest⟩
      exact .exprStmt (ih (.cons hFirst hRest))
        (hMoved _ _ _ hOwn hFirst)
  | noStatements =>
      rw [eq_nil_of_alike hAlike]
      exact .noStatements
  | closedStatement _ hSemicolon _ ihFirst ihMore =>
      rcases exists_append_of_alike hAlike with
        ⟨ts, vs, rfl, hFirst, hOthers⟩
      rcases exists_cons_of_alike hOthers with
        ⟨semicolon, us, rfl, hSeparator, hMore⟩
      exact .closedStatement (ihFirst hFirst)
        (hSeparator.1 ▸ hSemicolon) (ihMore hMore)
  | openStatement _ hEnd _ ihFirst ihMore =>
      rcases exists_append_of_alike hAlike with
        ⟨ts, us, rfl, hFirst, hMore⟩
      exact .openStatement (ihFirst hFirst)
        (hEnd.relocate hMore) (ihMore hMore)
  | program _ ih => exact .program (ih hAlike)

/- Tokens in another place spell a program of the same essence,
   whose nodes keep the tokens of that place. -/
theorem Spells.exists_program_of_alike
    {p : Node}
    {ts us : List Token}
    (h : Spells Eq (.program p) ts)
    (hAlike : List.Forall₂ Token.Alike ts us) :
    ∃ p', Spells Eq (.program p') us ∧
      p'.essence = p.essence := by
  have hThere :
      Spells (fun u t => u.Alike t) (.program p) us :=
    h.relocate hAlike (by rintro u t t' rfl hToken; exact hToken)
  exact hThere.exists_retokened
    (fun u t hToken => by
      simp [Token.unplaced, hToken.1, hToken.2])
    (fun _ _ _ => rfl)

------------------------------------------------------------
-- Texts
------------------------------------------------------------

/- Tokens with lexemes that spell a program are, wherever they
   stand, those of a text that the parser accepts. -/
theorem exists_text_of_spells
    {p : Node}
    {ts : List Token}
    (h : Spells own (.program p) ts)
    (hTokens : ∀ t ∈ ts, t.WellFormed) :
    ∃ source limit p',
      parseWithin limit source = .ok p' ∧
        List.Forall₂ Token.Alike ts (bodyTokens source) := by
  have hAlike := bodyTokens_respell hTokens
  have hThere : Spells (fun _ _ => True) (.program p) _ :=
    h.relocate hAlike fun _ _ _ _ _ => trivial
  rcases hThere.retoken with ⟨p', hSpells, -⟩
  exact ⟨_, _, p',
    parseWithin_of_spells hSpells (Nat.le_refl _), hAlike⟩

/- A text with tokens like those of an accepted one is accepted
   with enough levels of nesting. -/
theorem parseWithin_ok_of_alike
    {limit : Nat}
    {source source' : String}
    {p : Node}
    (h : parseWithin limit source = .ok p)
    (hAlike :
      List.Forall₂ Token.Alike (bodyTokens source)
        (bodyTokens source')) :
    ∃ limit' p', parseWithin limit' source' = .ok p' := by
  have hTokens := spells_of_parseWithin h
  have hThere : Spells (fun _ _ => True) (.program p) _ :=
    hTokens.relocate hAlike fun _ _ _ _ _ => trivial
  rcases hThere.retoken with ⟨p', hSpells, -⟩
  exact ⟨_, p',
    parseWithin_of_spells hSpells (Nat.le_refl _)⟩

end Monkey
