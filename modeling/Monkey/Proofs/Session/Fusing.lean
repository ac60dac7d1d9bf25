import Monkey.Proofs.Parse.Composition
import Monkey.Proofs.Token.Respelling
import Monkey.Session.Brackets

/-
  Texts that fuse without their invisible characters.

  Some invisible characters are blanks.  Where they alone stand
  between two words or two numbers, these become one without
  them.  `Fuses` says that this happens somewhere in a text, and
  it can be told from the ends of tokens.

  Main declarations:
    * `Fuses`
    * `fuses_append_of_visible`
    * `Lexeme.joins_of_absorbs`
    * `Lexeme.absorbs_of_joins`
-/

namespace Monkey

------------------------------------------------------------
-- Texts That Fuse
------------------------------------------------------------

/- The characters that are left without the invisible ones. -/
def visible (cs : List Char) : List Char :=
  cs.filter (!isInvisible ·)

/- Two characters that are read as parts of one word or number
   where one follows the other. -/
def Joins (c d : Char) : Prop :=
  isLetter c = true ∧ isLetter d = true ∨
    isDigit c = true ∧ isDigit d = true

/- Invisible characters, and nothing else, stand between two
   letters or two digits. -/
inductive Fuses : List Char → Prop
  | here
      {c d : Char}
      {gap after : List Char}
      (hGap : gap ≠ [])
      (hInvisible : ∀ g ∈ gap, isInvisible g = true)
      (hJoins : Joins c d) :
      Fuses (c :: (gap ++ d :: after))
  | later
      {c : Char}
      {cs : List Char}
      (hMore : Fuses cs) :
      Fuses (c :: cs)

/- A character comes to stand next to another one that it
   joins. -/
def Meets
    (c : Char)
    (following : List Char) : Prop :=
  (∃ g ∈ following.head?, isInvisible g = true) ∧
    ∃ d ∈ (visible following).head?, Joins c d

------------------------------------------------------------
-- Invisible Characters
------------------------------------------------------------

/- The codes of invisible characters. -/
theorem code_of_isInvisible
    {c : Char}
    (h : isInvisible c = true) :
    c.toNat = 13 ∨ 160 ≤ c.toNat := by
  simp only [isInvisible, Bool.or_eq_true, beq_iff_eq] at h
  rcases h with hCode | rfl
  · omega
  · exact .inl rfl

/- No printed ASCII character is invisible. -/
theorem isInvisible_of_code
    {c : Char}
    (hLow : 32 ≤ c.toNat)
    (hHigh : c.toNat ≤ 126) :
    isInvisible c = false := by
  rw [Bool.eq_false_iff]
  intro hInvisible
  have hCode := code_of_isInvisible hInvisible
  omega

theorem isInvisible_of_isLetter
    {c : Char}
    (h : isLetter c = true) :
    isInvisible c = false := by
  have hCode := code_of_isLetter h
  exact isInvisible_of_code (by omega) (by omega)

theorem isInvisible_of_isDigit
    {c : Char}
    (h : isDigit c = true) :
    isInvisible c = false := by
  have hCode := code_of_isDigit h
  exact isInvisible_of_code (by omega) (by omega)

theorem isInvisible_of_mark
    {c : Char}
    {kind : TokenKind}
    (h : TokenKind.ofMark? c = some kind) :
    isInvisible c = false := by
  unfold TokenKind.ofMark? at h
  split at h <;> first | rfl | cases h

theorem visible_append
    (cs ds : List Char) :
    visible (cs ++ ds) = visible cs ++ visible ds :=
  List.filter_append ..

/- Nothing is lost where nothing is invisible. -/
theorem visible_eq_self
    {cs : List Char}
    (h : ∀ c ∈ cs, isInvisible c = false) :
    visible cs = cs := by
  refine List.filter_eq_self.mpr fun c hMem => ?_
  rw [h c hMem]
  rfl

/- What is left of blanks is blank. -/
theorem isBlank_of_mem_visible
    {cs : List Char}
    (h : ∀ c ∈ cs, isBlank c = true) :
    ∀ c ∈ visible cs, isBlank c = true :=
  fun c hMem => h c (List.mem_filter.mp hMem).1

/- What is seen first comes after invisible characters only. -/
theorem head_visible_iff
    {d : Char}
    {cs : List Char} :
    d ∈ (visible cs).head? ↔
      isInvisible d = false ∧
        ∃ gap after, cs = gap ++ d :: after ∧
          ∀ g ∈ gap, isInvisible g = true := by
  unfold visible
  rw [List.head?_filter, Option.mem_def,
    List.find?_eq_some_iff_append]
  simp

/- What is no blank is still seen first without blanks before
   it. -/
theorem head_visible_of_blanks
    {c : Char}
    {blanks cs : List Char}
    (hBlanks : ∀ c ∈ blanks, isBlank c = true)
    (hBlank : isBlank c = false)
    (hHead : c ∈ (visible (blanks ++ cs)).head?) :
    c ∈ (visible cs).head? := by
  rw [visible_append, List.head?_append] at hHead
  cases hFirst : (visible blanks).head? with
  | none => simpa [hFirst] using hHead
  | some d =>
      have hMem := List.mem_of_head? hFirst
      have hOther := isBlank_of_mem_visible hBlanks d hMem
      simp only [hFirst, Option.some_or, Option.mem_some_iff]
        at hHead
      rw [hHead, hBlank] at hOther
      cases hOther

------------------------------------------------------------
-- Where a Text Fuses
------------------------------------------------------------

namespace Joins

variable {c d : Char}

theorem not_blank
    (h : Joins c d) :
    isBlank c = false := by
  rcases h with ⟨hLetter, -⟩ | ⟨hDigit, -⟩
  · exact isBlank_of_isLetter hLetter
  · exact isBlank_of_isDigit hDigit

theorem not_invisible
    (h : Joins c d) :
    isInvisible d = false := by
  rcases h with ⟨-, hLetter⟩ | ⟨-, hDigit⟩
  · exact isInvisible_of_isLetter hLetter
  · exact isInvisible_of_isDigit hDigit

end Joins

/- A text fuses at its first character or later. -/
theorem fuses_cons
    {c : Char}
    {cs : List Char} :
    Fuses (c :: cs) ↔ Meets c cs ∨ Fuses cs := by
  constructor
  · intro h
    cases h with
    | later hMore => exact .inr hMore
    | @here _ d gap after hGap hInvisible hJoins =>
        left
        constructor
        · rcases List.exists_cons_of_ne_nil hGap with
            ⟨g, more, rfl⟩
          exact ⟨g, rfl, hInvisible g (List.mem_cons_self ..)⟩
        · exact ⟨d, head_visible_iff.mpr
            ⟨hJoins.not_invisible, gap, after, rfl, hInvisible⟩,
            hJoins⟩
  · rintro (⟨⟨g, hHead, hHidden⟩, d, hSeen, hJoins⟩ | hMore)
    · rcases head_visible_iff.mp hSeen with
        ⟨hVisible, gap, after, rfl, hInvisible⟩
      refine .here ?_ hInvisible hJoins
      rintro rfl
      cases hHead
      rw [hVisible] at hHidden
      cases hHidden
    · exact .later hMore

/- No text fuses in blanks. -/
theorem fuses_append_of_blank
    {blanks : List Char}
    (hBlanks : ∀ c ∈ blanks, isBlank c = true)
    (cs : List Char) :
    Fuses (blanks ++ cs) ↔ Fuses cs := by
  induction blanks with
  | nil => rfl
  | cons c blanks ih =>
      rcases List.forall_mem_cons.mp hBlanks with ⟨hFirst, hMore⟩
      rw [List.cons_append, fuses_cons, ih hMore,
        or_iff_right_iff_imp]
      rintro ⟨-, d, -, hJoins⟩
      rw [hJoins.not_blank] at hFirst
      cases hFirst

/- Characters that can all be seen fuse with what follows at
   their end, if at all. -/
theorem fuses_append_of_visible
    {cs : List Char}
    (hVisible : ∀ c ∈ cs, isInvisible c = false)
    (following : List Char) :
    Fuses (cs ++ following) ↔
      (∃ c ∈ cs.getLast?, Meets c following) ∨
        Fuses following := by
  induction cs with
  | nil => simp
  | cons c cs ih =>
      rcases List.forall_mem_cons.mp hVisible with ⟨-, hMore⟩
      rw [List.cons_append, fuses_cons, ih hMore]
      cases cs with
      | nil => simp
      | cons d cs =>
          have hSeen := hMore d (List.mem_cons_self ..)
          have hNot : ¬ Meets c (d :: cs ++ following) := by
            rintro ⟨⟨g, hHead, hHidden⟩, -⟩
            cases hHead
            rw [hSeen] at hHidden
            cases hHidden
          rw [List.getLast?_cons_cons]
          simp only [hNot, false_or]

------------------------------------------------------------
-- Tokens That Can Be Seen
------------------------------------------------------------

/- Nothing in the spelling of a token is invisible. -/
def Token.Visible (t : Token) : Prop :=
  ∀ c ∈ spelling t.kind t.literal.toList,
    isInvisible c = false

namespace TokenKind

/- The marks that begin longer operators are those that are only
   found before expressions. -/
theorem leads_of_mark
    {c d : Char}
    {kind : TokenKind}
    (hMark : ofMark? c = some kind)
    (hAbsorbs : kind.absorbs d = true) :
    kind.Leads := by
  unfold ofMark? at hMark
  split at hMark
  case h_1 => cases hMark; exact .inl rfl
  case h_4 => cases hMark; exact .inr rfl
  all_goals cases hMark
  all_goals cases hAbsorbs

/- Only an equals sign makes such a mark longer. -/
theorem Leads.absorbs_only
    {d : Char}
    {kind : TokenKind}
    (h : kind.Leads)
    (hAbsorbs : kind.absorbs d = true) :
    d = '=' := by
  rcases h with rfl | rfl
  · exact beq_iff_eq.mp hAbsorbs
  · exact beq_iff_eq.mp hAbsorbs

theorem Leads.ne_illegal
    {kind : TokenKind}
    (h : kind.Leads) :
    kind ≠ .illegal := by
  rcases h with rfl | rfl
  · exact nofun
  · exact nofun

/- No expression starts with an equals sign. -/
theorem StartsExpression.ne_equals
    {kind : TokenKind}
    (h : kind.StartsExpression) :
    kind ≠ .assign ∧ kind ≠ .eq := by
  constructor
  · rintro rfl
    revert h
    decide
  · rintro rfl
    revert h
    decide

end TokenKind

namespace Lexeme

variable {kind : TokenKind}
variable {cs : List Char}

/- Only illegal characters and the texts of strings can be
   invisible. -/
theorem visible
    (h : Lexeme kind cs)
    (hLegal : kind ≠ .illegal)
    (hString :
      kind = .string → ∀ c ∈ cs, isInvisible c = false) :
    ∀ c ∈ spelling kind cs, isInvisible c = false := by
  intro c hMem
  unfold spelling at hMem
  cases h with
  | illegal => exact absurd rfl hLegal
  | eq =>
      have hOnly : c = '=' := by simpa using hMem
      rw [hOnly]
      rfl
  | notEq =>
      have hEither : c = '!' ∨ c = '=' := by simpa using hMem
      rcases hEither with rfl | rfl
      · rfl
      · rfl
  | mark hMark =>
      rw [if_neg (TokenKind.ofMark_ne hMark).1,
        List.mem_singleton] at hMem
      rw [hMem]
      exact isInvisible_of_mark hMark
  | string =>
      simp only [if_true, List.mem_cons, List.mem_append,
        List.not_mem_nil, or_false] at hMem
      rcases hMem with rfl | hContent | rfl
      · rfl
      · exact hString rfl c hContent
      · rfl
  | word _ hLetters =>
      rw [if_neg (TokenKind.ofWord_ne _).1] at hMem
      exact isInvisible_of_isLetter (hLetters c hMem)
  | number _ hDigits =>
      exact isInvisible_of_isDigit (hDigits c hMem)

/- A character that belongs to a word or number in front of it
   joins its end. -/
theorem joins_of_absorbs
    {d : Char}
    (h : Lexeme kind cs)
    (hPlain : ¬ kind.Leads)
    (hAbsorbs : kind.absorbs d = true) :
    ∃ c ∈ (spelling kind cs).getLast?, Joins c d := by
  cases h with
  | eq | notEq | string | illegal => cases hAbsorbs
  | mark hMark =>
      exact absurd (TokenKind.leads_of_mark hMark hAbsorbs)
        hPlain
  | word hNonempty hLetters =>
      rw [TokenKind.absorbs_ofWord] at hAbsorbs
      rw [spelling, if_neg (TokenKind.ofWord_ne _).1]
      exact ⟨cs.getLast hNonempty,
        List.getLast?_eq_some_getLast hNonempty,
        .inl ⟨hLetters _ (List.getLast_mem _), hAbsorbs⟩⟩
  | number hNonempty hDigits =>
      exact ⟨cs.getLast hNonempty,
        List.getLast?_eq_some_getLast hNonempty,
        .inr ⟨hDigits _ (List.getLast_mem _), hAbsorbs⟩⟩

/- A character that joins the end of a token belongs to it. -/
theorem absorbs_of_joins
    {c d : Char}
    (h : Lexeme kind cs)
    (hLast : c ∈ (spelling kind cs).getLast?)
    (hJoins : Joins c d) :
    kind.absorbs d = true := by
  have hOnly :
      ∀ e, c = e → isLetter e = false → isDigit e = false →
        kind.absorbs d = true := by
    rintro e rfl hLetter hDigit
    rcases hJoins with ⟨hIs, -⟩ | ⟨hIs, -⟩
    · rw [hLetter] at hIs
      cases hIs
    · rw [hDigit] at hIs
      cases hIs
  unfold spelling at hLast
  cases h with
  | eq | notEq =>
      cases hLast
      exact hOnly _ rfl rfl rfl
  | mark hMark =>
      rw [if_neg (TokenKind.ofMark_ne hMark).1] at hLast
      cases hLast
      exact hOnly _ rfl (mark_only hMark).2.1
        (mark_only hMark).2.2
  | string =>
      have hQuote : c = '"' := by
        rw [if_pos rfl, ← List.cons_append,
          List.getLast?_concat] at hLast
        exact (Option.some.inj hLast).symm
      exact hOnly _ hQuote rfl rfl
  | illegal _ _ _ hLetter hDigit =>
      cases hLast
      exact hOnly _ rfl hLetter hDigit
  | word _ hLetters =>
      rw [if_neg (TokenKind.ofWord_ne _).1] at hLast
      have hLetter := hLetters c (List.mem_of_getLast? hLast)
      rw [TokenKind.absorbs_ofWord]
      rcases hJoins with ⟨-, hNext⟩ | ⟨hDigit, -⟩
      · exact hNext
      · rw [isLetter_of_isDigit hDigit] at hLetter
        cases hLetter
  | number _ hDigits =>
      have hDigit := hDigits c (List.mem_of_getLast? hLast)
      rcases hJoins with ⟨hLetter, -⟩ | ⟨-, hNext⟩
      · rw [isLetter_of_isDigit hDigit] at hLetter
        cases hLetter
      · exact hNext

/- What starts with an equals sign is `=` or `==`. -/
theorem kind_of_equals
    {more : List Char}
    (h : Lexeme kind cs)
    (hOpens : spelling kind cs = '=' :: more) :
    kind = .assign ∨ kind = .eq := by
  unfold spelling at hOpens
  cases h with
  | eq => exact .inr rfl
  | mark hMark =>
      rw [if_neg (TokenKind.ofMark_ne hMark).1] at hOpens
      cases hOpens
      exact .inl (Option.some.inj hMark).symm
  | notEq | string => cases hOpens
  | illegal _ hMark =>
      cases hOpens
      cases hMark
  | word _ hLetters =>
      rw [if_neg (TokenKind.ofWord_ne _).1] at hOpens
      cases hLetters '=' (by simp [hOpens])
  | number _ hDigits =>
      have hText : cs = '=' :: more := hOpens
      cases hDigits '=' (by simp [hText])

end Lexeme

end Monkey
