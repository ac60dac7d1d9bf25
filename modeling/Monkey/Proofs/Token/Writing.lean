import Monkey.Proofs.Token.Scanning

/-
  Texts that are put together from tokens.

  `Writes text ts` says that a text is read as certain tokens
  wherever it stands before a character that no token goes on
  with, such as a bracket, a comma, or a space.  Texts that are
  written with such characters between their parts are read part
  by part.

  Main declarations:
    * `Scans.mark`
    * `Writes`
    * `writes_intercalate`
-/

namespace Monkey

------------------------------------------------------------
-- Single Tokens
------------------------------------------------------------

/- A mark that stands for no place in a text. -/
def Token.ofMark
    (kind : TokenKind)
    (c : Char) :
    Token where
  kind := kind
  literal := String.ofList [c]
  line := 0
  column := 0

theorem wellFormed_ofMark
    {c : Char}
    {kind : TokenKind}
    (hMark : TokenKind.ofMark? c = some kind) :
    (Token.ofMark kind c).WellFormed := by
  unfold Token.WellFormed Token.ofMark
  rw [String.toList_ofList]
  exact .mark hMark

namespace TokenKind

/- The character of a mark of a kind. -/
def mark? : TokenKind → Option Char
  | assign => some '='
  | plus => some '+'
  | minus => some '-'
  | bang => some '!'
  | asterisk => some '*'
  | slash => some '/'
  | lt => some '<'
  | gt => some '>'
  | comma => some ','
  | semicolon => some ';'
  | colon => some ':'
  | lparen => some '('
  | rparen => some ')'
  | lbrace => some '{'
  | rbrace => some '}'
  | lbracket => some '['
  | rbracket => some ']'
  | _ => none

/- A kind has no more than one mark. -/
theorem mark?_of_ofMark
    {c : Char}
    {kind : TokenKind}
    (h : ofMark? c = some kind) :
    kind.mark? = some c := by
  unfold ofMark? at h
  split at h
  all_goals cases h
  all_goals rfl

/- No mark is of the kind of a word. -/
theorem mark?_ofWord
    (word : String) :
    (ofWord word).mark? = none := by
  unfold ofWord
  repeat' split
  all_goals rfl

end TokenKind

/- A lexeme of the kind of a mark is that mark. -/
theorem Lexeme.eq_mark
    {c : Char}
    {kind : TokenKind}
    {cs : List Char}
    (h : Lexeme kind cs)
    (hMark : TokenKind.ofMark? c = some kind) :
    cs = [c] := by
  have hKind := TokenKind.mark?_of_ofMark hMark
  cases h with
  | mark hOther =>
      rw [TokenKind.mark?_of_ofMark hOther] at hKind
      rw [Option.some.inj hKind]
  | word =>
      rw [TokenKind.mark?_ofWord] at hKind
      cases hKind
  | _ => cases hKind

namespace Scans

variable {c : Char}
variable {cs rest : List Char}
variable {t : Token}
variable {ts : List Token}

/- A mark is read as a token of its kind. -/
theorem mark
    (hToken : t.WellFormed)
    (hMark : TokenKind.ofMark? c = some t.kind)
    (hApart : t.kind.Apart cs)
    (h : Scans cs ts rest) :
    Scans (c :: cs) (t :: ts) rest := by
  have hSpelling : spelling t.kind t.literal.toList = [c] := by
    unfold spelling
    rw [if_neg (TokenKind.ofMark_ne hMark).1]
    exact hToken.eq_mark hMark
  have hScans := Scans.token hToken hApart h
  rwa [hSpelling] at hScans

/- Any mark can be written down. -/
theorem ofMark
    {kind : TokenKind}
    (hMark : TokenKind.ofMark? c = some kind)
    (hApart : kind.Apart cs)
    (h : Scans cs ts rest) :
    Scans (c :: cs) (.ofMark kind c :: ts) rest :=
  mark (wellFormed_ofMark hMark) hMark hApart h

/- A space is passed over. -/
theorem space
    (h : Scans cs ts rest) :
    Scans (' ' :: cs) ts rest :=
  .blank rfl h

end Scans

------------------------------------------------------------
-- Texts
------------------------------------------------------------

/- No token goes on with what follows. -/
def StandsApart (following : List Char) : Prop :=
  ∀ c ∈ following.head?, isApart c = true

theorem standsApart_cons
    {c : Char}
    {cs : List Char}
    (h : isApart c = true) :
    StandsApart (c :: cs) := by
  intro d hHead
  cases hHead
  exact h

theorem StandsApart.apart
    {following : List Char}
    (h : StandsApart following)
    (kind : TokenKind) :
    kind.Apart following :=
  fun c hHead => kind.absorbs_of_isApart (h c hHead)

/- A text is read as tokens where it stands apart. -/
def Writes
    (text : String)
    (ts : List Token) : Prop :=
  ∀ more, StandsApart more →
    Scans (text.toList ++ more) ts more

/- A token that is no string is written as its text. -/
theorem writes_token
    {t : Token}
    (hToken : t.WellFormed)
    (hKind : t.kind ≠ .string) :
    Writes t.literal [t] := by
  intro more hMore
  have hEnd : Scans more [] more := .done
  have hScans := Scans.token hToken (hMore.apart t.kind) hEnd
  unfold spelling at hScans
  rwa [if_neg hKind] at hScans

/- A text that is the whole of a source. -/
theorem Writes.bodyTokens
    {text : String}
    {ts : List Token}
    (h : Writes text ts) :
    List.Forall₂ Token.Alike ts (Monkey.bodyTokens text) := by
  refine bodyTokens_of_scans ?_
  have hScans := h [] nofun
  rwa [List.append_nil] at hScans

/- No token but a mark goes on with a mark. -/
theorem isApart_of_mark
    {c : Char}
    {kind : TokenKind}
    (hMark : TokenKind.ofMark? c = some kind)
    (hNot : c ≠ '=') :
    isApart c = true := by
  simp only [isApart, Bool.and_eq_true, Bool.not_eq_true',
    bne_iff_ne, Bool.eq_false_iff]
  refine ⟨⟨fun hLetter => ?_, fun hDigit => ?_⟩, hNot⟩
  · rw [ofMark_of_isLetter hLetter] at hMark
    cases hMark
  · rw [ofMark_of_isDigit hDigit] at hMark
    cases hMark

/- A text between two marks that begin no longer operators. -/
theorem Writes.enclosed
    {opening : Token}
    {c d : Char}
    {kind : TokenKind}
    {text : String}
    {us : List Token}
    (h : Writes text us)
    (hToken : opening.WellFormed)
    (hOpening : TokenKind.ofMark? c = some opening.kind)
    (hClosing : TokenKind.ofMark? d = some kind)
    (hFirst : c ≠ '=' ∧ c ≠ '!')
    (hLast : d ≠ '=' ∧ d ≠ '!')
    (more : List Char) :
    Scans (c :: (text.toList ++ d :: more))
      (opening :: (us ++ [.ofMark kind d])) more := by
  have hApart :
      ∀ {m kind following},
        TokenKind.ofMark? m = some kind → m ≠ '=' ∧ m ≠ '!' →
          kind.Apart following :=
    fun hMark hSingle =>
      TokenKind.apart_of_mark hMark (by
        rintro (rfl | rfl)
        · exact absurd rfl hSingle.1
        · exact absurd rfl hSingle.2)
  have hEnd : Scans (d :: more) [.ofMark kind d] more :=
    .ofMark hClosing (hApart hClosing hLast) .done
  have hInner :=
    (h (d :: more)
      (standsApart_cons (isApart_of_mark hClosing hLast.1))).trans
      hEnd
  exact .mark hToken hOpening (hApart hOpening hFirst) hInner

/- Texts with commas between them, with or without spaces. -/
theorem writes_intercalate
    {sep : String}
    (hSep : sep = "," ∨ sep = ", ")
    {parts : List String}
    {tss : List (List Token)}
    (h : List.Forall₂ Writes parts tss) :
    Writes (String.intercalate sep parts)
      (List.intercalate [Token.ofMark .comma ','] tss) := by
  induction h with
  | nil => exact fun more _ => .done
  | @cons text ts parts tss hFirst hOthers ih =>
      cases hOthers with
      | nil =>
          intro more hMore
          simpa [String.intercalate_singleton] using
            hFirst more hMore
      | cons hSecond hRest =>
          intro more hMore
          rw [String.intercalate_cons_cons,
            List.intercalate_cons_cons]
          have hOther := ih more hMore
          rcases hSep with rfl | rfl
          · have hComma :=
              Scans.ofMark (c := ',') rfl (fun _ _ => rfl)
                hOther
            have hBoth :=
              (hFirst _ (standsApart_cons rfl)).trans hComma
            simpa using hBoth
          · have hComma :=
              Scans.ofMark (c := ',') rfl (fun _ _ => rfl)
                hOther.space
            have hBoth :=
              (hFirst _ (standsApart_cons rfl)).trans hComma
            simpa using hBoth

/- Parts that are read one by one, with commas between them. -/
theorem exists_intercalated
    {α : Type}
    {R : α → List Token → Prop}
    {xs : List α}
    {texts : List String}
    (h :
      List.Forall₂ (fun x text => ∃ ts, R x ts ∧ Writes text ts)
        xs texts) :
    ∃ tss, List.Forall₂ R xs tss ∧
      ∀ sep, sep = "," ∨ sep = ", " →
        Writes (String.intercalate sep texts)
          (List.intercalate [Token.ofMark .comma ','] tss) := by
  obtain ⟨tss, hParts, hTexts⟩ :
      ∃ tss, List.Forall₂ R xs tss ∧
        List.Forall₂ Writes texts tss := by
    induction h with
    | nil => exact ⟨[], .nil, .nil⟩
    | cons hFirst _ ih =>
        rcases hFirst with ⟨ts, hPart, hText⟩
        rcases ih with ⟨tss, hParts, hTexts⟩
        exact ⟨ts :: tss, .cons hPart hParts,
          .cons hText hTexts⟩
  exact ⟨tss, hParts,
    fun sep hSep => writes_intercalate hSep hTexts⟩

/- Two texts with a colon between them, with or without a
   space. -/
theorem Writes.pair
    {sep key value : String}
    {ks vs : List Token}
    (hSep : sep = ":" ∨ sep = ": ")
    (hKey : Writes key ks)
    (hValue : Writes value vs) :
    Writes (key ++ sep ++ value)
      (ks ++ .ofMark .colon ':' :: vs) := by
  intro more hMore
  have hAfter := hValue more hMore
  rcases hSep with rfl | rfl
  · have hColon :=
      Scans.ofMark (c := ':') rfl (fun _ _ => rfl) hAfter
    have hBoth := (hKey _ (standsApart_cons rfl)).trans hColon
    simpa using hBoth
  · have hColon :=
      Scans.ofMark (c := ':') rfl (fun _ _ => rfl) hAfter.space
    have hBoth := (hKey _ (standsApart_cons rfl)).trans hColon
    simpa using hBoth

end Monkey
