import Monkey.Proofs.Parse.Spelling

/-
  What phrases inherit from their parts.

  Phrases are put together from tokens in a few ways: one after
  another, between brackets of one kind, and after a token that
  an expression has to follow.  A property of token lists that
  these keep holds of every phrase.

  Main declarations:
    * `Compositional`
    * `Spells.inherits`
-/

namespace Monkey

------------------------------------------------------------
-- Kinds of Tokens
------------------------------------------------------------

namespace TokenKind

/- The kind of bracket that closes a bracket of a kind. -/
def closer? : TokenKind → Option TokenKind
  | lparen => some rparen
  | lbracket => some rbracket
  | lbrace => some rbrace
  | _ => none

/- The kinds that are only found before expressions. -/
def Leads (kind : TokenKind) : Prop :=
  kind = assign ∨ kind = bang

/- The other kinds in phrases: names, literals, keywords,
   operators, and separators. -/
def inner : List TokenKind :=
  [ident, int, string, plus, minus, asterisk, slash, lt, gt,
    eq, notEq, comma, semicolon, colon, fnWord, letWord,
    trueWord, falseWord, ifWord, elseWord, returnWord]

theorem IsInfix.inner
    {kind : TokenKind}
    (h : kind.IsInfix) :
    kind ∈ inner := by
  have hAll :
      ∀ k ∈ [eq, notEq, lt, gt, plus, minus, slash, asterisk],
        k ∈ TokenKind.inner := by
    decide
  exact hAll kind h

end TokenKind

------------------------------------------------------------
-- Properties of Token Lists
------------------------------------------------------------

/- A property of token lists that is kept when phrases are put
   together. -/
structure Compositional (P : List Token → Prop) : Prop where
  nil : P []
  single : ∀ {t}, t.kind ∈ TokenKind.inner → P [t]
  append : ∀ {ts us}, P ts → P us → P (ts ++ us)
  leading :
    ∀ {t u ts}, t.kind.Leads → u.kind.StartsExpression →
      P (u :: ts) → P (t :: u :: ts)
  enclosed :
    ∀ {opening closing ts},
      opening.kind.closer? = some closing.kind → P ts →
        P (opening :: (ts ++ [closing]))

namespace Compositional

variable {P : List Token → Prop}
variable {ts : List Token}

/- One token of a phrase. -/
theorem one
    (h : Compositional P)
    {t : Token}
    {kind : TokenKind}
    (hKind : t.kind = kind)
    (hInner : kind ∈ TokenKind.inner) :
    P [t] :=
  h.single (hKind ▸ hInner)

/- A token comes before others. -/
theorem cons
    (h : Compositional P)
    {t : Token}
    {kind : TokenKind}
    (hKind : t.kind = kind)
    (hInner : kind ∈ TokenKind.inner)
    (hMore : P ts) :
    P (t :: ts) :=
  h.append (h.one hKind hInner) hMore

/- Brackets of known kinds around others. -/
theorem pair
    (h : Compositional P)
    {opening closing : Token}
    {left right : TokenKind}
    (hOpening : opening.kind = left)
    (hClosing : closing.kind = right)
    (hPair : left.closer? = some right)
    (hInner : P ts) :
    P (opening :: (ts ++ [closing])) := by
  subst hOpening hClosing
  exact h.enclosed hPair hInner

/- A token that leads comes before an expression. -/
theorem lead
    (h : Compositional P)
    {own : Token → Token → Prop}
    {t : Token}
    {e : Node}
    {b : Precedence}
    (hLeads : t.kind.Leads)
    (hSpells : Spells own (.expression e b) ts)
    (hMore : P ts) :
    P (t :: ts) := by
  rcases hSpells.expression_opens with ⟨u, rest, rfl, hStart⟩
  exact h.leading hLeads hStart hMore

end Compositional

------------------------------------------------------------
-- Phrases
------------------------------------------------------------

variable {P : List Token → Prop}
variable {own : Token → Token → Prop}

theorem SpellsNames.inherits
    {ids : List Identifier}
    {ts : List Token}
    (h : SpellsNames own ids ts)
    (hP : Compositional P) :
    P ts := by
  induction h with
  | none => exact hP.nil
  | one hName => exact hP.one hName (by decide)
  | more hName _ hComma _ ih =>
      exact hP.cons hName (by decide)
        (hP.cons hComma (by decide) ih)

/- Every phrase has what its parts pass on. -/
theorem Spells.inherits
    {phrase : Phrase}
    {ts : List Token}
    (h : Spells own phrase ts)
    (hP : Compositional P) :
    P ts := by
  induction h with
  | identifier hKind => exact hP.one hKind (by decide)
  | integer hKind => exact hP.one hKind (by decide)
  | string hKind => exact hP.one hKind (by decide)
  | boolTrue hKind => exact hP.one hKind (by decide)
  | boolFalse hKind => exact hP.one hKind (by decide)
  | prefixOp hKind _ hRight _ ih =>
      rcases hKind with hBang | hMinus
      · exact hP.lead (.inr hBang) hRight ih
      · exact hP.cons hMinus (by decide) ih
  | infixOp hKind _ _ _ _ _ ihLeft ihRight =>
      exact hP.append ihLeft (hP.cons rfl hKind.inner ihRight)
  | group hOpening _ hClosing ih =>
      exact hP.pair hOpening hClosing rfl ih
  | ifElse hWord _ hOpening _ hClosing _ _ ihCondition
      ihConsequence ihOtherwise =>
      have hCondition :=
        hP.pair hOpening hClosing rfl ihCondition
      have hBranches := hP.append ihConsequence ihOtherwise
      simpa using
        hP.cons hWord (by decide)
          (hP.append hCondition hBranches)
  | function hWord _ hOpening hParams hClosing _ ihBody =>
      have hNames :=
        hP.pair hOpening hClosing rfl (hParams.inherits hP)
      simpa using
        hP.cons hWord (by decide) (hP.append hNames ihBody)
  | call _ hOpening _ _ hClosing ihCallee ihArgs =>
      exact hP.append ihCallee
        (hP.pair hOpening hClosing rfl ihArgs)
  | array hOpening _ _ hClosing ih =>
      exact hP.pair hOpening hClosing rfl ih
  | index _ hOpening _ _ hClosing ihLeft ihSubscript =>
      exact hP.append ihLeft
        (hP.pair hOpening hClosing rfl ihSubscript)
  | hash hOpening _ _ hClosing ih =>
      exact hP.pair hOpening hClosing rfl ih
  | noAlternative => exact hP.nil
  | alternative hWord _ ih => exact hP.cons hWord (by decide) ih
  | block hOpening _ _ hClosing ih =>
      exact hP.pair hOpening hClosing rfl ih
  | noItems => exact hP.nil
  | items _ _ ihFirst ihMore => exact hP.append ihFirst ihMore
  | noFurtherItems => exact hP.nil
  | furtherItems hComma _ _ ihFirst ihMore =>
      exact hP.cons hComma (by decide)
        (hP.append ihFirst ihMore)
  | noPairs => exact hP.nil
  | lastPair _ hColon _ ihKey ihValue =>
      exact hP.append ihKey (hP.cons hColon (by decide) ihValue)
  | pairThen _ hColon _ hComma _ ihKey ihValue ihMore =>
      have hOthers :=
        hP.append ihValue (hP.cons hComma (by decide) ihMore)
      exact hP.append ihKey
        (hP.cons hColon (by decide) hOthers)
  | letStmt hWord _ hName _ hAssign hValue ih =>
      have hBound := hP.lead (.inl hAssign) hValue ih
      exact hP.cons hWord (by decide)
        (hP.cons hName (by decide) hBound)
  | bareReturn hWord => exact hP.one hWord (by decide)
  | returnStmt hWord _ _ ih => exact hP.cons hWord (by decide) ih
  | exprStmt _ _ ih => exact ih
  | noStatements => exact hP.nil
  | closedStatement _ hSemicolon _ ihFirst ihMore =>
      exact hP.append ihFirst
        (hP.cons hSemicolon (by decide) ihMore)
  | openStatement _ _ _ ihFirst ihMore =>
      exact hP.append ihFirst ihMore
  | program _ ih => exact ih

end Monkey
