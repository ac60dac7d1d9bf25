import Monkey.Proofs.Parse.Completeness
import Monkey.Proofs.Parse.NestingLimit
import Monkey.Proofs.Parse.Soundness

/-
  What the parser accepts: exactly the spellings of programs.

  A text whose tokens spell a program is read as that program,
  and the tokens of an accepted text spell the program that was
  read.

  Main declarations:
    * `Spells.strength_or_grouped`
    * `parse_of_spells`
    * `spells_of_parse`
-/

namespace Monkey

------------------------------------------------------------
-- Where Parentheses Stand
------------------------------------------------------------

/- How an expression holds together without parentheses around
   it. -/
def Node.strength : Node → Precedence
  | .infixOp t _ _ _ => t.kind.precedence
  | .prefixOp _ _ _ => .unary
  | _ => .call

/-
  A spelling holds together as its expression does, unless it
  is between parentheses.  So an operand that is too weak for
  its place has parentheses around it.
-/
theorem Spells.strength_or_grouped
    {e : Node}
    {b : Precedence}
    {ts : List Token}
    (h : Spells Eq (.expression e b) ts) :
    b = e.strength ∨
      ∃ opening inner closing,
        ts = opening :: (inner ++ [closing]) ∧
          opening.kind = .lparen ∧
          closing.kind = .rparen ∧
          ∃ b', Spells Eq (.expression e b') inner := by
  cases h with
  | group hOpening hInner hClosing =>
      exact .inr
        ⟨_, _, _, rfl, hOpening, hClosing, _, hInner⟩
  | infixOp hKind hOwn =>
      subst hOwn
      exact .inl rfl
  | _ => exact .inl rfl

------------------------------------------------------------
-- Spellings Are Accepted
------------------------------------------------------------

/- A text is accepted where its statements can be read. -/
theorem parseWithin_eq_ok
    {limit : Nat}
    {source : String}
    {ss : List Node} :
    parseWithin limit source = .ok (.program ss) ↔
      ∃ t,
        Parse.programStatements (Parse.expression limit)
            ((tokens source).length + 1) (.ofText source) =
          .ok ss t := by
  unfold parseWithin Parse.program
  rw [Parse.bind_rounds]
  constructor
  · intro h
    split at h
    · next tree t hProgram =>
        simp only [Parse.bind_eq_ok, Parse.pure_eq_ok]
          at hProgram
        rcases hProgram with ⟨rs, _, hRun, rfl, rfl⟩
        cases h
        exact ⟨_, hRun⟩
    · cases h
  · rintro ⟨t, hRun⟩
    have hRun' :
        Parse.programStatements (Parse.expression limit)
            ((TokenStream.ofText source).pending.length + 1)
            (.ofText source) =
          .ok ss t :=
      hRun
    rw [Parse.bind_apply, hRun']
    rfl

/- A text that spells a program is read as that program, unless
   the nesting is too deep for the limit. -/
theorem parseWithin_eq_of_spells
    {limit : Nat}
    {source : String}
    {p : Node}
    (h : Spells Eq (.program p) (bodyTokens source))
    (hReached : parseWithin limit source ≠ .error .tooDeep) :
    parseWithin limit source = .ok p := by
  rw [parseWithin_eq_of_le source
    (Nat.le_max_left limit (bodyTokens source).length) hReached]
  exact parseWithin_of_spells h (Nat.le_max_right _ _)

/-
  A text that spells a program is read as that program, with
  its own tokens in the nodes.  As many levels of nesting as
  there are tokens suffice, and with fewer nothing else can
  come out but that the nesting is too deep.
-/
theorem parse_of_spells
    (source : String)
    (e : Node)
    (h :
      Spells (fun _ _ => True) (.program e)
        (bodyTokens source)) :
    ∃ p, p.bare = e.bare ∧
      (∀ limit, (bodyTokens source).length ≤ limit →
        parseWithin limit source = .ok p) ∧
      (∀ limit, parseWithin limit source ≠ .error .tooDeep →
        parseWithin limit source = .ok p) := by
  rcases h.retoken with ⟨p, hSpells, hBare⟩
  refine ⟨p, hBare, ?_, ?_⟩
  · intro limit hLimit
    exact parseWithin_of_spells hSpells hLimit
  · intro limit hReached
    exact parseWithin_eq_of_spells hSpells hReached

/- The text `(1 + 2) * -y;` is read as a product. -/
theorem parse_of_spells_product :
    ∃ p,
      p.bare =
          .program
            [.exprStmt .blank
              (.infixOp .blank
                (.infixOp .blank (.integer .blank 1) "+"
                  (.integer .blank 2))
                "*"
                (.prefixOp .blank "-"
                  (.identifier ⟨.blank, "y"⟩)))] ∧
        parseWithin 13 "(1 + 2) * -y;" = .ok p := by
  have hTokens :
      bodyTokens "(1 + 2) * -y;" =
        ⟨.lparen, "(", 1, 1⟩ ::
          ([⟨.int, "1", 1, 2⟩] ++
            ⟨.plus, "+", 1, 4⟩ :: [⟨.int, "2", 1, 6⟩] ++
            [⟨.rparen, ")", 1, 7⟩]) ++
          ⟨.asterisk, "*", 1, 9⟩ ::
            [⟨.minus, "-", 1, 11⟩, ⟨.ident, "y", 1, 12⟩] ++
          ⟨.semicolon, ";", 1, 13⟩ :: [] := by
    rfl
  have hSum :
      Spells (fun _ _ => True)
        (.expression
          (.infixOp .blank (.integer .blank 1) "+"
            (.integer .blank 2))
          .sum)
        ([⟨.int, "1", 1, 2⟩] ++
          ⟨.plus, "+", 1, 4⟩ :: [⟨.int, "2", 1, 6⟩]) :=
    .infixOp (t := ⟨.plus, "+", 1, 4⟩) (by decide) trivial
      (.integer (t := ⟨.int, "1", 1, 2⟩) rfl (by decide)
        trivial)
      (by decide)
      (.integer (t := ⟨.int, "2", 1, 6⟩) rfl (by decide)
        trivial)
      (by decide)
  have hMinus :
      Spells (fun _ _ => True)
        (.expression
          (.prefixOp .blank "-" (.identifier ⟨.blank, "y"⟩))
          .unary)
        [⟨.minus, "-", 1, 11⟩, ⟨.ident, "y", 1, 12⟩] :=
    .prefixOp (t := ⟨.minus, "-", 1, 11⟩) (.inr rfl) trivial
      (.identifier (t := ⟨.ident, "y", 1, 12⟩) rfl trivial)
      (by decide)
  rcases parse_of_spells "(1 + 2) * -y;" _ (by
      rw [hTokens]
      exact .program
        (.closedStatement
          (.exprStmt (u := .blank)
            (.infixOp (t := ⟨.asterisk, "*", 1, 9⟩)
              (u := .blank) (by decide) trivial
              (.group rfl hSum rfl) (by decide)
              hMinus (by decide))
            trivial)
          rfl .noStatements)) with
    ⟨p, hBare, hEnough, -⟩
  refine ⟨p, hBare, hEnough 13 ?_⟩
  rw [hTokens]
  decide

------------------------------------------------------------
-- Accepted Texts Are Spellings
------------------------------------------------------------

/-
  The tokens of an accepted text are a spelling of the program
  that was read, whose nodes keep these very tokens, and then
  the only end of the text.
-/
theorem spells_of_parse
    (limit : Nat)
    (source : String)
    (p : Node)
    (h : parseWithin limit source = .ok p) :
    ∃ body stop,
      tokens source = body ++ [stop] ∧
        stop.kind = .eof ∧
        (∀ t ∈ body, t.kind ≠ .eof) ∧
        Spells Eq (.program p) body := by
  rcases tokens_eq_bodyTokens_append source with
    ⟨stop, hTokens, hStop, hBody⟩
  exact ⟨bodyTokens source, stop, hTokens, hStop, hBody,
    spells_of_parseWithin h⟩

/- The text `-(1 + x)` is accepted with parentheses around the
   sum. -/
theorem spells_of_parse_sum :
    let minus : Token := ⟨.minus, "-", 1, 1⟩
    let one : Token := ⟨.int, "1", 1, 3⟩
    let plus : Token := ⟨.plus, "+", 1, 5⟩
    let x : Token := ⟨.ident, "x", 1, 7⟩
    let p : Node :=
      .program
        [.exprStmt minus
          (.prefixOp minus "-"
            (.infixOp plus (.integer one 1) "+"
              (.identifier ⟨x, "x"⟩)))]
    parseWithin 6 "-(1 + x)" = .ok p ∧
      ∃ body stop,
        tokens "-(1 + x)" = body ++ [stop] ∧
          stop.kind = .eof ∧
          (∀ t ∈ body, t.kind ≠ .eof) ∧
          Spells Eq (.program p) body := by
  intro minus one plus x p
  have hParse : parseWithin 6 "-(1 + x)" = .ok p := by
    rfl
  exact ⟨hParse, spells_of_parse 6 "-(1 + x)" p hParse⟩

end Monkey
