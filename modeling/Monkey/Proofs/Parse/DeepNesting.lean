import Monkey.Proofs.Parse.Levels
import Monkey.Proofs.Parse.Rendering

/-
  Texts that are nested too deep for the limit.

  Every sign and every opening parenthesis at the start of an
  expression takes one level of nesting.  The text of a tree has
  a parenthesis more for each sign, so it can be too deep where
  the text that it was read from is not.

  Calls that follow each other take no more levels to be read
  than one of them, but the tree is as high as they are many:
  its text can be out of reach as well.

  Main declarations:
    * `parseWithin_eq_tooDeep`
    * `exists_render_tooDeep`
    * `exists_tree_tooHigh`
    * `exists_function_tooHigh`
    * `render_nests_deeper`
-/

namespace Monkey

------------------------------------------------------------
-- Levels of Nesting
------------------------------------------------------------

/- The tokens that nest the expression right after them. -/
def TokenKind.Nests (kind : TokenKind) : Prop :=
  kind = .lparen ∨ kind.IsSign

namespace Parse

variable {final : Token}
variable {ts us : List Token}

/- An expression behind as many such tokens as there are levels
   is out of reach. -/
theorem expression_tooDeep
    {depth : Nat}
    {p : Precedence}
    (hTokens : ∀ t ∈ ts, t.kind.Nests)
    (hDepth : depth ≤ ts.length) :
    ∃ s,
      expression depth p ⟨ts ++ us, final⟩ =
        .error .tooDeep s := by
  induction depth generalizing p ts with
  | zero => exact ⟨_, rfl⟩
  | succ depth ih =>
      cases ts with
      | nil => cases hDepth
      | cons t ts =>
          rcases List.forall_mem_cons.mp hTokens with
            ⟨hFirst, hOthers⟩
          have hNested :
              ∀ p, ∃ s,
                expression depth p ⟨ts ++ us, final⟩ =
                  .error .tooDeep s :=
            fun p => ih hOthers (Nat.le_of_succ_le_succ hDepth)
          obtain ⟨s, hPart⟩ :
              ∃ s,
                firstPart (expression depth)
                    ⟨t :: (ts ++ us), final⟩ =
                  .error .tooDeep s := by
            rcases hFirst with hKind | hKind | hKind
            · rcases hNested .lowest with ⟨s, hInner⟩
              exact ⟨s, by
                simp only [firstPart, bind_apply, current_apply,
                  hKind, groupedExpression, advance_apply,
                  hInner]⟩
            all_goals
              rcases hNested .unary with ⟨s, hInner⟩
              exact ⟨s, by
                simp only [firstPart, bind_apply, current_apply,
                  hKind, prefixExpression, advance_apply,
                  hInner]⟩
          refine ⟨s, ?_⟩
          change expressionStep _ _ _ = _
          unfold expressionStep
          rw [bind_apply, List.cons_append, hPart]

end Parse

/- A text that begins with as many such tokens as there are
   levels is not accepted. -/
theorem parseWithin_eq_tooDeep
    {limit : Nat}
    {source : String}
    {ts us : List Token}
    (hSource : bodyTokens source = ts ++ us)
    (hTokens : ∀ t ∈ ts, t.kind.Nests)
    (hSome : 0 < ts.length)
    (hDepth : limit ≤ ts.length) :
    parseWithin limit source = .error .tooDeep := by
  rcases TokenStream.ofText_eq source with
    ⟨stop, hStream, -, -⟩
  rw [hSource, List.append_assoc] at hStream
  cases ts with
  | nil => cases hSome
  | cons t ts =>
      have hNests : t.kind.Nests := hTokens t List.mem_cons_self
      obtain ⟨s, hDeep⟩ :
          ∃ s,
            Parse.expression limit .lowest
                ⟨t :: (ts ++ (us ++ [stop])), stop⟩ =
              .error .tooDeep s :=
        Parse.expression_tooDeep hTokens hDepth
      have hStatement :
          Parse.statement (Parse.expression limit)
              ⟨t :: (ts ++ (us ++ [stop])), stop⟩ =
            .error .tooDeep s := by
        rcases hNests with hKind | hKind | hKind <;>
          simp only [Parse.statement, Parse.bind_apply,
            Parse.current_apply, hKind,
            Parse.expressionStatement, hDeep]
      have hReal : t.kind ≠ .eof := by
        rcases hNests with hKind | hKind | hKind <;>
          rw [hKind] <;> decide
      unfold parseWithin Parse.program
      rw [Parse.bind_rounds, Parse.bind_apply, hStream,
        List.cons_append, Parse.programStatements,
        Parse.bind_apply, Parse.current_apply]
      simp only [hReal, if_false, Parse.bind_apply, hStatement]

------------------------------------------------------------
-- Signs Before a Name
------------------------------------------------------------

/- Signs and then a name. -/
def signs (n : Nat) : String :=
  String.ofList (List.replicate n '-' ++ ['a'])

/- The text of a name after signs, as the tree shows it. -/
def signsRendered : Nat → String
  | 0 => "a"
  | n + 1 => "(" ++ "-" ++ signsRendered n ++ ")"

/- The name after the signs. -/
def signedName : Token where
  kind := .ident
  literal := "a"
  line := 0
  column := 0

theorem signedName_wellFormed : signedName.WellFormed := by
  have hWord : Lexeme (.ofWord (String.ofList ['a'])) ['a'] :=
    .word nofun (List.all_eq_true.mp rfl)
  exact hWord

/- Signs are read one by one. -/
theorem scans_signs
    (n : Nat) :
    Scans (List.replicate n '-' ++ ['a'])
      (List.replicate n (.ofMark .minus '-') ++ [signedName])
      [] := by
  induction n with
  | zero =>
      exact writes_token signedName_wellFormed (by decide) [] nofun
  | succ n ih =>
      exact .ofMark (c := '-') rfl (fun _ _ => rfl) ih

/- What signs spell, wherever they stand. -/
theorem exists_signed
    {n : Nat}
    {us : List Token}
    (hAlike :
      List.Forall₂ Token.Alike
        (List.replicate n (.ofMark .minus '-') ++ [signedName])
        us) :
    ∃ e b, Spells Eq (.expression e b) us ∧
      Precedence.unary.rank ≤ b.rank ∧
      e.isPlain = true ∧
      e.height = n + 1 ∧
      e.render = signsRendered n := by
  induction n generalizing us with
  | zero =>
      rcases exists_single_of_alike hAlike with
        ⟨t, rfl, hKind, hText⟩
      exact ⟨_, _, .identifier hKind.symm rfl, by decide, rfl,
        rfl, by rw [Node.render, ← hText]; rfl⟩
  | succ n ih =>
      rcases exists_cons_of_alike hAlike with
        ⟨t, vs, rfl, ⟨hKind, hText⟩, hMore⟩
      rcases ih hMore with
        ⟨e, b, hSpells, hStrength, hPlain, hHeight, hRender⟩
      refine ⟨.prefixOp t t.literal e, .unary,
        .prefixOp (.inr hKind.symm) rfl hSpells hStrength,
        Nat.le_refl _, by rw [Node.isPlain, hPlain],
        by rw [Node.height, hHeight], ?_⟩
      rw [Node.render, hRender, ← hText]
      rfl

/- In the text of signs every sign has a parenthesis before
   it. -/
theorem exists_scans_signsRendered
    (n : Nat) :
    ∃ ts us,
      Writes (signsRendered n) (ts ++ us) ∧
        ts.length = 2 * n ∧
        ∀ t ∈ ts, t.kind.Nests := by
  induction n with
  | zero =>
      exact ⟨[], [signedName],
        writes_token signedName_wellFormed (by decide), rfl, nofun⟩
  | succ n ih =>
      rcases ih with ⟨ts, us, hWrites, hLength, hNests⟩
      refine ⟨.ofMark .lparen '(' :: .ofMark .minus '-' :: ts,
        us ++ [.ofMark .rparen ')'], ?_, ?_, ?_⟩
      · intro more _
        have hInner :=
          (hWrites (')' :: more) (standsApart_cons rfl)).trans
            (.ofMark (c := ')') rfl (fun _ _ => rfl) .done)
        have hAll :=
          Scans.ofMark (c := '(') rfl (fun _ _ => rfl)
            (.ofMark (c := '-') rfl (fun _ _ => rfl) hInner)
        simpa [signsRendered] using hAll
      · simp only [List.length_cons, hLength]
        omega
      · rw [List.forall_mem_cons, List.forall_mem_cons]
        exact ⟨.inl rfl, .inr (.inr rfl), hNests⟩

/-
  At every limit there are texts that are read, while the text
  of what is read is nested too deep.
-/
theorem exists_render_tooDeep
    {n limit levels : Nat}
    (hRead : n < limit)
    (hDeep : limit ≤ 2 * n)
    (hShown : n + 3 ≤ levels) :
    ∃ p text,
      parseWithin limit (signs n) = .ok p ∧
        p.isPlain = true ∧
        p.hasExpressionsLast = true ∧
        p.renderWithin levels = .ok text ∧
        parseWithin limit text = .error .tooDeep := by
  have hScans := scans_signs n
  have hAlike :
      List.Forall₂ Token.Alike
        (List.replicate n (.ofMark .minus '-') ++ [signedName])
        (bodyTokens (signs n)) := by
    refine bodyTokens_of_scans ?_
    rw [signs, String.toList_ofList]
    exact hScans
  rcases exists_signed hAlike with
    ⟨e, b, hSpells, -, hPlain, hHeight, hRender⟩
  rcases hSpells.expression_opens with ⟨first, rest, hTokens, -⟩
  rw [hTokens] at hSpells
  have hProgram :
      Spells Eq (.program (.program [.exprStmt first e]))
        (bodyTokens (signs n)) := by
    rw [hTokens, ← List.append_nil (first :: rest)]
    exact .program
      (.openStatement (.exprStmt hSpells rfl)
        ⟨fun _ => rfl, nofun⟩ .noStatements)
  refine ⟨_, _, parseWithin_of_spells hProgram ?_, ?_, rfl,
    Node.renderWithin_of_height_le ?_, ?_⟩
  · rw [← hAlike.length_eq]
    simpa using Nat.succ_le_of_lt hRead
  · simp [Node.isPlain, Node.isPlainList, hPlain]
  · simp only [Node.height, Node.heightList, hHeight,
      Nat.max_zero]
    omega
  · rcases exists_scans_signsRendered n with
      ⟨ts, us, hWrites, hLength, hNests⟩
    have hText :
        (Node.program [.exprStmt first e]).render =
          signsRendered n := by
      simp [Node.render, Node.renderList, hRender]
    rw [hText]
    rcases exists_append_of_alike hWrites.bodyTokens with
      ⟨ts', us', hBody, hFirst, -⟩
    refine parseWithin_eq_tooDeep hBody ?_ ?_ ?_
    · exact forall_kind_of_alike hFirst hNests
    · rw [← hFirst.length_eq]
      omega
    · rw [← hFirst.length_eq, hLength]
      exact hDeep

------------------------------------------------------------
-- Calls of Calls
------------------------------------------------------------

/- A name and then calls without arguments. -/
def callText (n : Nat) : List Char :=
  'a' :: (List.replicate n ['(', ')']).flatten

/- Calls, and nothing else. -/
def calls (n : Nat) : String :=
  String.ofList (callText n)

/- A function with calls in its body. -/
def functionOfCalls (n : Nat) : String :=
  String.ofList
    (['f', 'n', '(', ')', '{'] ++ (callText n ++ ['}']))

/- The tokens of the calls after the name. -/
def callMarks (n : Nat) : List Token :=
  (List.replicate n
    [.ofMark .lparen '(', .ofMark .rparen ')']).flatten

/- Calls are read parenthesis by parenthesis. -/
theorem scans_callMarks
    (n : Nat)
    (rest : List Char) :
    Scans ((List.replicate n ['(', ')']).flatten ++ rest)
      (callMarks n) rest := by
  induction n with
  | zero => exact .done
  | succ n ih =>
      exact .ofMark (c := '(') rfl (fun _ _ => rfl)
        (.ofMark (c := ')') rfl (fun _ _ => rfl) ih)

theorem scans_callText
    (n : Nat)
    {rest : List Char}
    (hApart : StandsApart rest) :
    Scans (callText n ++ rest) (signedName :: callMarks n)
      rest := by
  have hMarks :
      StandsApart
        ((List.replicate n ['(', ')']).flatten ++ rest) := by
    cases n with
    | zero => exact hApart
    | succ n => exact standsApart_cons rfl
  exact .token signedName_wellFormed (hMarks.apart _)
    (scans_callMarks n rest)

theorem bodyTokens_calls
    (n : Nat) :
    List.Forall₂ Token.Alike (signedName :: callMarks n)
      (bodyTokens (calls n)) := by
  have hScans :
      Scans (callText n ++ []) (signedName :: callMarks n) [] :=
    scans_callText n nofun
  refine bodyTokens_of_scans ?_
  rwa [calls, String.toList_ofList, ← (callText n).append_nil]

/- The word that a function begins with. -/
def functionWord : Token where
  kind := .fnWord
  literal := "fn"
  line := 0
  column := 0

theorem functionWord_wellFormed : functionWord.WellFormed := by
  have hWord :
      Lexeme (.ofWord (String.ofList ['f', 'n'])) ['f', 'n'] :=
    .word nofun (List.all_eq_true.mp rfl)
  exact hWord

/- What a function begins with up to its body. -/
def functionMarks : List Token :=
  [functionWord, .ofMark .lparen '(', .ofMark .rparen ')',
    .ofMark .lbrace '{']

theorem bodyTokens_functionOfCalls
    (n : Nat) :
    List.Forall₂ Token.Alike
      (functionMarks ++
        (signedName :: callMarks n ++ [.ofMark .rbrace '}']))
      (bodyTokens (functionOfCalls n)) := by
  refine bodyTokens_of_scans ?_
  rw [functionOfCalls, String.toList_ofList]
  have hEnd : Scans ['}'] [.ofMark .rbrace '}'] [] :=
    .ofMark (c := '}') rfl (fun _ _ => rfl) .done
  have hBody :=
    (scans_callText n (standsApart_cons rfl)).trans hEnd
  exact .token functionWord_wellFormed
    ((standsApart_cons rfl).apart _)
    (.ofMark (c := '(') rfl (fun _ _ => rfl)
      (.ofMark (c := ')') rfl (fun _ _ => rfl)
        (.ofMark (c := '{') rfl (fun _ _ => rfl) hBody)))

/- What an expression is before calls without arguments, whose
   parentheses are given. -/
def called (callee : Node) : List Token → Node
  | opening :: _ :: more =>
      called (.call opening callee []) more
  | _ => callee

/- Each call puts a level on top of the tree. -/
theorem called_callMarks
    {n : Nat}
    {us : List Token}
    (callee : Node)
    (hAlike : List.Forall₂ Token.Alike (callMarks n) us)
    (hPlain : callee.isPlain = true) :
    (called callee us).isPlain = true ∧
      (called callee us).height = callee.height + n := by
  induction n generalizing us callee with
  | zero =>
      cases hAlike
      exact ⟨hPlain, rfl⟩
  | succ n ih =>
      rcases exists_cons_of_alike hAlike with
        ⟨opening, others, rfl, -, hOthers⟩
      rcases exists_cons_of_alike hOthers with
        ⟨closing, us, rfl, -, hMore⟩
      have hCall :
          (Node.call opening callee []).isPlain = true := by
        simp [Node.isPlain, Node.isPlainList, hPlain]
      rcases ih _ hMore hCall with ⟨hAll, hHeight⟩
      refine ⟨hAll, hHeight.trans ?_⟩
      simp only [Node.height, Node.heightList, Nat.max_zero]
      omega

namespace Parse

variable {d : Nat}
variable {t u z : Token}
variable {r : List Token}

/-
  Calls without arguments extend an expression one by one.  They
  ask for no nested expression, so no level is taken.
-/
theorem continuations_calls
    {n m : Nat}
    {us : List Token}
    {callee : Node}
    (hAlike : List.Forall₂ Token.Alike (callMarks n) us)
    (hRounds : n < m)
    (hSeparates : Separates u) :
    ∃ t',
      continuations (expression d) .lowest m callee
          ⟨t :: (us ++ u :: r), z⟩ =
        .ok (called callee us) ⟨t' :: u :: r, z⟩ := by
  induction n generalizing m us callee t with
  | zero =>
      cases hAlike
      obtain ⟨m, rfl⟩ : ∃ k, m = k + 1 :=
        Nat.exists_eq_add_one.mpr hRounds
      have hLoose :
          ¬ Precedence.lowest.rank <
            u.kind.precedence.rank := by
        rw [hSeparates.loose]
        decide
      exact ⟨t, by
        simp only [continuations, bind_apply, List.nil_append,
          peek_apply, hLoose, if_false, pure_apply, called]⟩
  | succ n ih =>
      obtain ⟨m, rfl⟩ : ∃ k, m = k + 1 :=
        Nat.exists_eq_add_one.mpr (Nat.zero_lt_of_lt hRounds)
      rcases exists_cons_of_alike hAlike with
        ⟨opening, others, rfl, ⟨hOpening, -⟩, hOthers⟩
      rcases exists_cons_of_alike hOthers with
        ⟨closing, us, rfl, ⟨hClosing, -⟩, hMore⟩
      have hCall :
          continuation (expression d) callee
              ⟨opening :: closing :: (us ++ u :: r), z⟩ =
            .ok (.call opening callee [])
              ⟨closing :: (us ++ u :: r), z⟩ := by
        simp only [continuation, bind_apply, current_apply,
          ← hOpening, Token.ofMark, callExpression,
          expressionList, peek_apply, ← hClosing, if_true,
          advance_apply, pure_apply]
      have hTight :
          Precedence.lowest.rank <
            opening.kind.precedence.rank := by
        rw [← hOpening]
        decide
      rcases ih (t := closing) hMore
          (Nat.lt_of_succ_lt_succ hRounds) with ⟨t', hRun⟩
      exact ⟨t', (continuations_step hTight hCall).trans hRun⟩

/- A name and any number of calls take one level. -/
theorem readsAt_calls
    {n : Nat}
    {us : List Token}
    (hName : t.kind = .ident)
    (hAlike : List.Forall₂ Token.Alike (callMarks n) us) :
    ReadsAt 1
      (called (.identifier { token := t, name := t.literal })
        us)
      (t :: us) := by
  refine ⟨⟨t, us, rfl, by rw [hName]; decide⟩, ?_⟩
  intro d hLevels u r z hSeparates
  obtain ⟨d, rfl⟩ : ∃ k, d = k + 1 :=
    Nat.exists_eq_add_one.mpr hLevels
  have hCount : us.length = 2 * n := by
    rw [← hAlike.length_eq]
    simp [callMarks, Nat.mul_comm]
  have hFirst :
      firstPart (expression d) ⟨t :: (us ++ u :: r), z⟩ =
        .ok (.identifier { token := t, name := t.literal })
          ⟨t :: (us ++ u :: r), z⟩ := by
    simp only [firstPart, bind_apply, current_apply, hName,
      pure_apply]
  have hRounds :
      n < (t :: (us ++ u :: r)).length + 1 := by
    simp only [List.length_cons, List.length_append]
    omega
  rcases continuations_calls (t := t) (r := r) (z := z) hAlike
      hRounds hSeparates with ⟨t', hRun⟩
  refine ⟨t', ?_⟩
  simp only [expression, expressionStep, bind_apply,
    List.cons_append, hFirst, rounds_apply]
  exact hRun

variable {levels : Nat}
variable {ts : List Token}

/- A function of no parameters and of one expression takes one
   level more than this. -/
theorem ReadsAt.function
    {word opening closing left right : Token}
    {e : Node}
    (hWord : word.kind = .fnWord)
    (hOpening : opening.kind = .lparen)
    (hClosing : closing.kind = .rparen)
    (hLeft : left.kind = .lbrace)
    (hRight : right.kind = .rbrace)
    (hBody : ReadsAt levels e ts) :
    ∃ first,
      ReadsAt (levels + 1)
        (.function word [] (.block left [.exprStmt first e]))
        (word :: opening :: closing :: left ::
          (ts ++ [right])) := by
  rcases hBody.opens with ⟨first, rest, rfl, hStart⟩
  refine ⟨first, ReadsAt.of_firstPart
    ⟨word, _, rfl, by rw [hWord]; decide⟩ ?_⟩
  intro d u r z hLevels
  have hSeparates : Separates right :=
    Separates.of_kind hRight (by decide)
  rcases hBody.run (r := u :: r) (z := z) hLevels hSeparates with
    ⟨t, hRun⟩
  have hNotEnd : first.kind ≠ .rbrace ∧ first.kind ≠ .eof := by
    refine ⟨?_, ?_⟩ <;> intro hEq <;>
      rw [hEq] at hStart <;> exact absurd hStart (by decide)
  have hNoSemicolon : right.kind ≠ .semicolon := by
    rw [hRight]
    decide
  refine ⟨right, ?_⟩
  rw [List.cons_append] at hRun
  simp only [firstPart, bind_apply, current_apply, hWord,
    functionLiteral, List.cons_append, List.append_assoc,
    List.nil_append, expect_apply hOpening, parameters,
    peek_apply, hClosing, if_true, advance_apply, pure_apply,
    expect_apply hLeft, block, rounds_apply, List.length_cons,
    List.length_append, blockStatements, hNotEnd.1, hNotEnd.2,
    if_false, statement_of_startsExpression hStart,
    expressionStatement, hRun,
    acceptOptional_apply_of_ne hNoSemicolon, hRight]

end Parse

/- A function whose body is as high as there are calls in it, and
   some more. -/
theorem exists_function_tooHigh
    {n limit levels : Nat}
    (hRead : 1 < limit)
    (hHigh : levels < n + 3) :
    ∃ first word body,
      parseWithin limit (functionOfCalls n) =
          .ok (.program [.exprStmt first
            (.function word [] body)]) ∧
        body.renderWithin levels = .error .tooDeep := by
  rcases exists_append_of_alike (bodyTokens_functionOfCalls n) with
    ⟨begun, others, hTokens, hBegun, hOthers⟩
  rcases exists_append_of_alike hOthers with
    ⟨called, ending, rfl, hCalls, hEnding⟩
  rcases exists_cons_of_alike hCalls with
    ⟨t, us, rfl, ⟨hName, -⟩, hAlike⟩
  obtain ⟨word, opening, closing, left, rfl, hWord, hOpening,
      hClosing, hLeft⟩ :
      ∃ word opening closing left,
        begun = [word, opening, closing, left] ∧
          word.kind = .fnWord ∧ opening.kind = .lparen ∧
          closing.kind = .rparen ∧ left.kind = .lbrace := by
    rcases hBegun with _ | ⟨hWord, _ | ⟨hOpening, _ |
      ⟨hClosing, _ | ⟨hLeft, _ | _⟩⟩⟩⟩
    exact ⟨_, _, _, _, rfl, hWord.1.symm, hOpening.1.symm,
      hClosing.1.symm, hLeft.1.symm⟩
  obtain ⟨right, rfl, hRight⟩ :
      ∃ right, ending = [right] ∧ right.kind = .rbrace := by
    rcases hEnding with _ | ⟨hRight, _ | _⟩
    exact ⟨_, rfl, hRight.1.symm⟩
  rcases Parse.ReadsAt.function hWord hOpening hClosing hLeft
      hRight (Parse.readsAt_calls hName.symm hAlike) with
    ⟨inner, hReads⟩
  have hBody :
      [word, opening, closing, left] ++ (t :: us ++ [right]) =
        word :: opening :: closing :: left ::
          (t :: us ++ [right]) :=
    rfl
  rw [← hBody, ← hTokens] at hReads
  rcases parseWithin_of_readsAt hReads hRead with
    ⟨first, hParse⟩
  rcases called_callMarks
      (.identifier { token := t, name := t.literal }) hAlike
      rfl with
    ⟨-, hHeight⟩
  refine ⟨first, word, _, hParse,
    Node.renderWithin_of_lt_height ?_⟩
  simp only [Node.height, Node.heightList, Nat.max_zero]
    at hHeight ⊢
  omega

/-
  However many levels there are to write a text, a program can
  be read whose tree is higher, at every limit that reads any
  expression.
-/
theorem exists_tree_tooHigh
    {n limit levels : Nat}
    (hRead : 0 < limit)
    (hHigh : levels < n + 3) :
    ∃ p,
      parseWithin limit (calls n) = .ok p ∧
        p.isPlain = true ∧
        p.hasExpressionsLast = true ∧
        p.renderWithin levels = .error .tooDeep := by
  rcases exists_cons_of_alike (bodyTokens_calls n) with
    ⟨t, us, hTokens, ⟨hName, -⟩, hAlike⟩
  have hReads := Parse.readsAt_calls hName.symm hAlike
  rw [← hTokens] at hReads
  rcases parseWithin_of_readsAt hReads hRead with
    ⟨first, hParse⟩
  rcases called_callMarks
      (.identifier { token := t, name := t.literal }) hAlike
      rfl with
    ⟨hPlain, hHeight⟩
  refine ⟨_, hParse, ?_, rfl,
    Node.renderWithin_of_lt_height ?_⟩
  · simp [Node.isPlain, Node.isPlainList, hPlain]
  · simp only [Node.height, Node.heightList, Nat.max_zero] at hHeight ⊢
    omega

/-
  Two hundred and seventy signs are read and shown, but the
  parentheses around them are not read; and four hundred and
  ninety calls are read, but not shown.
-/
theorem render_nests_deeper :
    letI := Platform.usual
    (∃ p text,
      parse (signs 270) = .ok p ∧
        p.isPlain = true ∧
        p.hasExpressionsLast = true ∧
        p.renderWithin Platform.displayLimit = .ok text ∧
        parse text = .error .tooDeep) ∧
      ∃ p,
        parse (calls 490) = .ok p ∧
          p.isPlain = true ∧
          p.hasExpressionsLast = true ∧
          p.renderWithin Platform.displayLimit =
            .error .tooDeep :=
  ⟨exists_render_tooDeep (by decide) (by decide) (by decide),
    exists_tree_tooHigh (by decide) (by decide)⟩

end Monkey
