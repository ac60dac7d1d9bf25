import Monkey.Proofs.Parse.Begun
import Monkey.Proofs.Parse.Locality
import Monkey.Proofs.Parse.NestingLimit
import Monkey.Proofs.Parse.Relocation
import Monkey.Proofs.Token.Places

/-
  Errors show as early as they can.

  Tokens are viable if they are the first ones of some accepted
  text.  Where the parser stops at an error, the tokens before
  the one at fault are viable, since they can be completed to a
  program.  With the one at fault they are not: on any text that
  starts like this, the parser does the same up to there.

  Main declarations:
    * `Viable`
    * `error_at_first_unviable`
-/

namespace Monkey

open TokenStream (Reaches Shares)

variable {limit limit' : Nat}
variable {source source' : String}
variable {e : ParseError}
variable {p : Node}
variable {ts rest us vs : List Token}

------------------------------------------------------------
-- Beginnings of Accepted Texts
------------------------------------------------------------

/- Tokens of the same kinds and texts are the first ones of some
   text that is accepted with enough levels of nesting. -/
def Viable (ts : List Token) : Prop :=
  ∃ source limit p us vs,
    parseWithin limit source = .ok p ∧
      tokens source = us ++ vs ∧
      List.Forall₂ Token.Alike ts us

/- The beginning of a spelling is viable. -/
theorem viable_of_spells
    (h : Spells Eq (.program p) (ts ++ us))
    (hTokens : ∀ t ∈ ts ++ us, t.WellFormed) :
    Viable ts := by
  rcases exists_text_of_spells h hTokens with
    ⟨source, limit, p', hParse, hAlike⟩
  rcases exists_append_of_alike hAlike with
    ⟨vs, vs', hBody, hFirst, -⟩
  rcases tokens_eq_bodyTokens_append source with
    ⟨stop, hAll, -, -⟩
  refine ⟨source, limit, p', vs, vs' ++ [stop], hParse, ?_,
    hFirst⟩
  rw [hAll, hBody, List.append_assoc]

/-
  Up to an error, the parser has read tokens of the text, which
  are viable.  There is a token at the error, at the latest the
  end of the text.
-/
theorem exists_viable_before_error
    (h : parseWithin limit source = .error (.error e)) :
    ∃ ts rest,
      tokens source = ts ++ e.token :: rest ∧
        (∀ t ∈ ts, t.kind ≠ .eof) ∧
        Viable ts := by
  rcases TokenStream.ofText_eq source with
    ⟨stop, hStream, hStop, -⟩
  have hTokens : tokens source = bodyTokens source ++ [stop] :=
    congrArg TokenStream.pending hStream
  unfold parseWithin at h
  rw [hStream] at h
  split at h
  · cases h
  · next failure s hProgram =>
      cases h
      rcases Parse.program_begun hStop hProgram with
        ⟨ts, fs, s', hTs, hToken, p, hSpells⟩
      have hPending : tokens source = ts ++ s'.pending :=
        hTokens.trans hTs.pending
      have hWellFormed :
          ∀ t ∈ ts ++ fs.map Filler.token, t.WellFormed := by
        intro t hMem
        rcases List.mem_append.mp hMem with hRead | hFiller
        · have hInText : t ∈ tokens source := by
            rw [hPending]
            exact List.mem_append_left _ hRead
          exact wellFormed_of_mem_tokens hInText
            (hTs.real t hRead)
        · rcases List.mem_map.mp hFiller with ⟨f, -, rfl⟩
          exact f.wellFormed
      cases hRest : s'.pending with
      | nil =>
          rw [hTokens, hRest, List.append_nil] at hPending
          refine absurd hStop (hTs.real stop ?_)
          rw [← hPending]
          exact List.mem_append_right _ (.head _)
      | cons t rest =>
          have hCurrent : s'.current = t := by
            simp [TokenStream.current, hRest]
          rw [hRest, ← hCurrent, hToken] at hPending
          exact ⟨ts, rest, hPending, hTs.real,
            viable_of_spells hSpells hWellFormed⟩

------------------------------------------------------------
-- Texts That Start Alike
------------------------------------------------------------

/- The first tokens of a text are those ahead. -/
theorem ahead_ofText_of_lt
    {k : Nat}
    (hTokens : tokens source = ts ++ rest)
    (hLess : k < ts.length) :
    (TokenStream.ofText source).ahead k = ts[k] := by
  change ((tokens source)[k]?).getD _ = _
  rw [hTokens, List.getElem?_append_left hLess,
    List.getElem?_eq_getElem hLess]
  rfl

/- Texts that start alike share their first tokens. -/
theorem shares_of_alike
    (hTokens : tokens source = ts ++ rest)
    (hTokens' : tokens source' = us ++ vs)
    (hAlike : List.Forall₂ Token.Alike ts us) :
    Shares ts.length (.ofText source) (.ofText source') := by
  intro k hLess
  have hLess' : k < us.length := hAlike.length_eq ▸ hLess
  rw [ahead_ofText_of_lt hTokens hLess,
    ahead_ofText_of_lt hTokens' hLess']
  exact hAlike.get hLess hLess'

/- A result stays the same with more levels of nesting. -/
theorem parseWithin_of_le
    {r : Except ParseFailure Node}
    (h : parseWithin limit source = r)
    (hReached : r ≠ .error .tooDeep)
    (hLimit : limit ≤ limit') :
    parseWithin limit' source = r := by
  rw [← h] at hReached ⊢
  exact (parseWithin_eq_of_le source hLimit hReached).symm

/- A text with an error is not accepted with any number of
   levels. -/
theorem parseWithin_ne_ok
    (h : parseWithin limit source = .error (.error e)) :
    parseWithin limit' source ≠ .ok p := by
  intro h'
  have hError :=
    parseWithin_of_le h (by simp) (Nat.le_max_left limit limit')
  have hOk :=
    parseWithin_of_le h' (by simp)
      (Nat.le_max_right limit limit')
  rw [hError] at hOk
  cases hOk

/-
  An error is not among the tokens that a text shares with an
  accepted one.  Both are read with as many levels of nesting as
  either needs.
-/
theorem exists_ahead_of_error
    {n : Nat}
    (h : parseWithin limit source = .error (.error e))
    (h' : parseWithin limit' source' = .ok p)
    (hShares : Shares n (.ofText source) (.ofText source')) :
    ∃ k, n ≤ k ∧
      (TokenStream.ofText source).ahead k = e.token := by
  have hError :=
    parseWithin_of_le h (by simp) (Nat.le_max_left limit limit')
  have hOk :=
    parseWithin_of_le h' (by simp)
      (Nat.le_max_right limit limit')
  have hLocal :=
    Parse.program_local
      (Parse.expression_local (max limit limit')) n _ _ hShares
  unfold parseWithin at hError hOk
  split at hError
  · cases hError
  · next failure s hProgram =>
      cases hError
      split at hOk
      · next tree s' hProgram' =>
          rw [hProgram, hProgram'] at hLocal
          rcases hLocal with ⟨k, -, hToken, hNot⟩
          refine ⟨k, Nat.le_of_not_lt fun hk => ?_, hToken⟩
          exact hNot hk _ _ rfl
      · cases hOk

------------------------------------------------------------
-- The Token at Fault
------------------------------------------------------------

/- Tokens up to the end of a text are all of its tokens. -/
theorem eq_bodyTokens
    {t : Token}
    (hTokens : tokens source = ts ++ t :: rest)
    (hReal : ∀ t ∈ ts, t.kind ≠ .eof)
    (hKind : t.kind = .eof) :
    ts = bodyTokens source := by
  rcases tokens_eq_bodyTokens_append source with
    ⟨stop, hAll, hStop, hBody⟩
  have hTs :
      Reaches ⟨bodyTokens source ++ [stop], stop⟩ ts
        ⟨t :: rest, stop⟩ :=
    ⟨hAll.symm.trans hTokens, rfl, hReal⟩
  exact hTs.eq_body hBody hStop hKind

/- Tokens like those before the end are before the end. -/
theorem real_of_alike
    (hAlike : List.Forall₂ Token.Alike ts us)
    (hReal : ∀ t ∈ ts, t.kind ≠ .eof) :
    ∀ u ∈ us, u.kind ≠ .eof := by
  induction hAlike with
  | nil => exact nofun
  | cons hFirst _ ih =>
      rcases List.forall_mem_cons.mp hReal with
        ⟨hHead, hRest⟩
      refine List.forall_mem_cons.mpr ⟨?_, ih hRest⟩
      rw [← hFirst.1]
      exact hHead

/- A token of a text is at one place only. -/
theorem index_of_split
    {t : Token}
    {j : Nat}
    (hTokens : tokens source = ts ++ t :: rest)
    (hAt : (tokens source)[j]? = some t) :
    j = ts.length := by
  have hFirst : (tokens source)[ts.length]? = some t := by
    rw [hTokens]
    simp
  have hLength : ts.length < (tokens source).length :=
    (List.getElem?_eq_some_iff.mp hFirst).1
  have hSame :=
    (List.getElem?_inj hLength (tokens_nodup source)).mp
      (hFirst.trans hAt.symm)
  exact hSame.symm

/- The token at a distance is one of the text at that place, or
   the end of the text. -/
theorem ahead_ofText
    (source : String)
    (k : Nat) :
    (tokens source)[k]? =
        some ((TokenStream.ofText source).ahead k) ∨
      ((TokenStream.ofText source).ahead k).kind = .eof := by
  rcases TokenStream.ofText_eq source with
    ⟨stop, hStream, hStop, -⟩
  have hTokens : tokens source = bodyTokens source ++ [stop] :=
    congrArg TokenStream.pending hStream
  rw [hStream, TokenStream.ahead, ← hTokens]
  cases hAt : (tokens source)[k]? with
  | none => exact .inr hStop
  | some t => exact .inl rfl

/-
  Together with the token at fault, the tokens before it are not
  viable.  If that token is the end of the text then a text that
  starts like this is like the whole text; otherwise the error
  would be beyond the tokens that it shares.
-/
theorem not_viable_of_error
    (h : parseWithin limit source = .error (.error e))
    (hTokens : tokens source = ts ++ e.token :: rest)
    (hReal : ∀ t ∈ ts, t.kind ≠ .eof) :
    ¬ Viable (ts ++ [e.token]) := by
  rintro ⟨source', limit', p, us, vs, h', hTokens', hAlike⟩
  by_cases hKind : e.token.kind = .eof
  · rcases exists_append_of_alike hAlike with
      ⟨us', ends, rfl, hFirst, hEnds⟩
    rcases exists_single_of_alike hEnds with ⟨u, rfl, hLast⟩
    rw [List.append_assoc] at hTokens'
    have hBody : ts = bodyTokens source :=
      eq_bodyTokens hTokens hReal hKind
    have hBody' : us' = bodyTokens source' :=
      eq_bodyTokens hTokens' (real_of_alike hFirst hReal)
        (hLast.1 ▸ hKind)
    rw [hBody, hBody'] at hFirst
    rcases parseWithin_ok_of_alike h'
        (hFirst.imp fun _ _ h => h.symm).flip with
      ⟨limit₂, p', hOk⟩
    exact parseWithin_ne_ok h hOk
  · have hSplit :
        tokens source = (ts ++ [e.token]) ++ rest := by
      rw [hTokens, List.append_assoc]
      rfl
    rcases exists_ahead_of_error h h'
        (shares_of_alike hSplit hTokens' hAlike) with
      ⟨k, hBeyond, hToken⟩
    rw [List.length_append, List.length_singleton] at hBeyond
    rcases ahead_ofText source k with hAt | hEof
    · rw [hToken] at hAt
      have hSame := index_of_split hTokens hAt
      omega
    · rw [hToken] at hEof
      exact hKind hEof

/-
  The parser reports an error at the first token that no text
  which starts like this can have: the tokens before it are the
  first ones of an accepted text, and together with it they are
  not.  It is a token of the text, and occurs only once.
-/
theorem error_at_first_unviable
    (limit : Nat)
    (source : String)
    (e : ParseError)
    (h : parseWithin limit source = .error (.error e)) :
    ∃ i,
      (tokens source)[i]? = some e.token ∧
        (∀ j, (tokens source)[j]? = some e.token → j = i) ∧
        Viable ((tokens source).take i) ∧
        ¬ Viable ((tokens source).take (i + 1)) := by
  rcases exists_viable_before_error h with
    ⟨ts, rest, hTokens, hReal, hViable⟩
  have hAt : (tokens source)[ts.length]? = some e.token := by
    rw [hTokens]
    simp
  have hBefore : (tokens source).take ts.length = ts := by
    rw [hTokens, List.take_left]
  have hWith :
      (tokens source).take (ts.length + 1) =
        ts ++ [e.token] := by
    rw [List.take_add_one, hBefore, hAt]
    rfl
  refine ⟨ts.length, hAt, ?_, ?_, ?_⟩
  · intro j hAt'
    exact index_of_split hTokens hAt'
  · rw [hBefore]
    exact hViable
  · rw [hWith]
    exact not_viable_of_error h hTokens hReal

/- The text `let 5` is at fault at the number. -/
theorem error_at_first_unviable_number :
    let five : Token := ⟨.int, "5", 1, 5⟩
    let e : ParseError := ⟨.unexpected .ident .int, five⟩
    parseWithin 1 "let 5" = .error (.error e) ∧
      ∃ i,
        (tokens "let 5")[i]? = some five ∧
          (∀ j, (tokens "let 5")[j]? = some five → j = i) ∧
          Viable ((tokens "let 5").take i) ∧
          ¬ Viable ((tokens "let 5").take (i + 1)) := by
  intro five e
  have hParse : parseWithin 1 "let 5" = .error (.error e) := by
    rfl
  exact ⟨hParse, error_at_first_unviable 1 "let 5" e hParse⟩

end Monkey
