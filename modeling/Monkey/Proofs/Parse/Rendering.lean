import Monkey.Proofs.Parse.Acceptance
import Monkey.Proofs.Parse.Relocation
import Monkey.Proofs.Syntax.Known
import Monkey.Proofs.Token.Writing

/-
  The text of a program, read again.

  A tree without strings, conditionals, and functions has a text
  that spells it: each part of the text is read as tokens that
  spell a part of the tree, and the parentheses of the text hold
  operators together where the tree does.  Strings lose their
  quotes in a text, and blocks their braces.

  Main declarations:
    * `Node.isPlain`
    * `Rendered`
    * `Spells.rendersAgain`
    * `parse_render`
-/

namespace Monkey

------------------------------------------------------------
-- Plain Trees
------------------------------------------------------------

namespace Node

mutual

/- Whether there is no string, no conditional, and no function
   in a tree. -/
def isPlain : Node → Bool
  | .identifier _ => true
  | .integer _ _ => true
  | .boolean _ _ => true
  | .string _ _ => false
  | .prefixOp _ _ right => isPlain right
  | .infixOp _ left _ right => isPlain left && isPlain right
  | .ifElse _ _ _ _ => false
  | .function _ _ _ => false
  | .call _ callee args => isPlain callee && isPlainList args
  | .array _ elements => isPlainList elements
  | .index _ left subscript =>
      isPlain left && isPlain subscript
  | .hash _ pairs => isPlainPairs pairs
  | .letStmt _ _ value => isPlain value
  | .returnStmt _ none => true
  | .returnStmt _ (some value) => isPlain value
  | .exprStmt _ expression => isPlain expression
  | .block _ statements => isPlainList statements
  | .program statements => isPlainList statements
  | .foreign => true

/- Whether all trees of a list are plain. -/
def isPlainList : List Node → Bool
  | [] => true
  | n :: rest => isPlain n && isPlainList rest

/- Whether all trees of a list of pairs are plain. -/
def isPlainPairs : List (Node × Node) → Bool
  | [] => true
  | (key, value) :: rest =>
      isPlain key && isPlain value && isPlainPairs rest

end

/- A statement that is an expression. -/
def isExprStmt : Node → Bool
  | .exprStmt _ _ => true
  | _ => false

/- A program with no expression for a statement but the last
   one. -/
def hasExpressionsLast : Node → Bool
  | .program statements =>
      statements.dropLast.all fun s => !s.isExprStmt
  | _ => false

end Node

------------------------------------------------------------
-- First Characters
------------------------------------------------------------

/- Only an operator that is spelled so begins with an equals
   sign. -/
theorem Lexeme.head_ne_equals
    {kind : TokenKind}
    {cs : List Char}
    (h : Lexeme kind cs)
    (hEq : kind ≠ .eq)
    (hAssign : kind ≠ .assign) :
    (spelling kind cs).head? ≠ some '=' := by
  cases h with
  | eq => exact absurd rfl hEq
  | notEq => exact nofun
  | string => exact nofun
  | mark hMark =>
      rw [spelling, if_neg (TokenKind.ofMark_ne hMark).1]
      rintro hHead
      cases hHead
      cases hMark
      exact hAssign rfl
  | illegal _ hMark =>
      rintro hHead
      cases hHead
      cases hMark
  | word hNonempty hLetters =>
      rw [spelling, if_neg (TokenKind.ofWord_ne _).1]
      intro hHead
      have hLetter := hLetters '=' (List.mem_of_head? hHead)
      cases hLetter
  | number hNonempty hDigits =>
      intro hHead
      have hDigit := hDigits '=' (List.mem_of_head? hHead)
      cases hDigit

/- What is read as an expression does not begin with an equals
   sign. -/
theorem Scans.head_ne_equals
    {t : Token}
    {ts : List Token}
    {cs rest : List Char}
    (h : Scans cs (t :: ts) rest)
    (hStart : t.kind.StartsExpression) :
    cs.head? ≠ some '=' := by
  cases h with
  | blank hBlank =>
      rintro hHead
      cases hHead
      cases hBlank
  | token hToken =>
      have hKind : t.kind ≠ .eq ∧ t.kind ≠ .assign := by
        constructor <;> intro hKind <;>
          rw [hKind] at hStart <;>
          exact absurd hStart (by decide)
      have hHead := hToken.head_ne_equals hKind.1 hKind.2
      rcases hToken.opens with ⟨c, cs, hSpelling, -⟩
      rw [hSpelling] at hHead ⊢
      exact hHead

------------------------------------------------------------
-- Expressions
------------------------------------------------------------

/- The text of an expression is read as tokens that spell it, and
   it holds together as between parentheses. -/
def Rendered (e : Node) : Prop :=
  ∃ us, Spells Eq (.expression e .call) us ∧
    Writes e.render us

namespace Rendered

variable {t : Token}
variable {left right e : Node}

theorem identifier
    (hToken : t.WellFormed)
    (hKind : t.kind = .ident) :
    Rendered (.identifier { token := t, name := t.literal }) :=
  ⟨[t], .identifier hKind rfl,
    writes_token hToken (by rw [hKind]; decide)⟩

theorem integer
    (hToken : t.WellFormed)
    (hKind : t.kind = .int)
    (hDigits : t.literal.length ≤ digitLimit) :
    Rendered
      (.integer t (digitsValue t.literal.toList)) :=
  ⟨[t], .integer hKind hDigits rfl,
    writes_token hToken (by rw [hKind]; decide)⟩

theorem boolTrue
    (hToken : t.WellFormed)
    (hKind : t.kind = .trueWord) :
    Rendered (.boolean t true) :=
  ⟨[t], .boolTrue hKind rfl,
    writes_token hToken (by rw [hKind]; decide)⟩

theorem boolFalse
    (hToken : t.WellFormed)
    (hKind : t.kind = .falseWord) :
    Rendered (.boolean t false) :=
  ⟨[t], .boolFalse hKind rfl,
    writes_token hToken (by rw [hKind]; decide)⟩

/- Tokens between parentheses. -/
theorem group
    {b : Precedence}
    {us : List Token}
    (hSpells : Spells Eq (.expression e b) us)
    (hRender :
      ∀ more,
        Scans (e.render.toList ++ more)
          (.ofMark .lparen '(' ::
            (us ++ [.ofMark .rparen ')'])) more) :
    Rendered e :=
  ⟨_, .group rfl hSpells rfl, fun more _ => hRender more⟩

/- A sign stands right before its operand, which does not begin
   with an equals sign. -/
theorem prefixOp
    (hToken : t.WellFormed)
    (hKind : t.kind.IsSign)
    (hRight : Rendered right) :
    Rendered (.prefixOp t t.literal right) := by
  rcases hRight with ⟨us, hSpells, hWrites⟩
  refine group (.prefixOp hKind rfl hSpells (by decide)) ?_
  intro more
  have hClosing : Scans (')' :: more) [.ofMark .rparen ')'] more :=
    .ofMark rfl (fun _ _ => rfl) .done
  have hOperand :=
    (hWrites (')' :: more) (standsApart_cons rfl)).trans hClosing
  have hApart :
      t.kind.Apart (right.render.toList ++ ')' :: more) := by
    intro c hHead
    rcases hSpells.expression_opens with
      ⟨first, rest, rfl, hStart⟩
    have hOther := hOperand.head_ne_equals hStart
    rcases hKind with hKind | hKind <;> rw [hKind]
    · have hNot : c ≠ '=' := by
        rintro rfl
        exact hOther hHead
      simpa [TokenKind.absorbs] using hNot
    · rfl
  have hSign := Scans.token hToken hApart hOperand
  rw [spelling, if_neg (by rcases hKind with h | h <;> rw [h] <;>
    decide)] at hSign
  have hAll :=
    Scans.ofMark (c := '(') rfl (fun _ _ => rfl) hSign
  simpa [Node.render] using hAll

/- An operator has spaces around it. -/
theorem infixOp
    (hToken : t.WellFormed)
    (hKind : t.kind.IsInfix)
    (hLeft : Rendered left)
    (hRight : Rendered right) :
    Rendered (.infixOp t left t.literal right) := by
  rcases hLeft with ⟨us, hLeftSpells, hLeftWrites⟩
  rcases hRight with ⟨vs, hRightSpells, hRightWrites⟩
  have hWeaker := hKind.strength.2
  refine group
    (.infixOp hKind rfl hLeftSpells ?_ hRightSpells ?_) ?_
  · exact t.kind.precedence.rank_le_call
  · exact Nat.lt_trans hWeaker (by decide)
  · intro more
    have hClosing :
        Scans (')' :: more) [.ofMark .rparen ')'] more :=
      .ofMark rfl (fun _ _ => rfl) .done
    have hSecond :=
      (hRightWrites (')' :: more) (standsApart_cons rfl)).trans
        hClosing
    have hOperator :=
      writes_token hToken (by
          rintro hString
          rw [hString] at hKind
          revert hKind
          decide)
        _ (standsApart_cons rfl) |>.trans hSecond.space
    have hFirst :=
      (hLeftWrites _ (standsApart_cons rfl)).trans
        hOperator.space
    have hAll :=
      Scans.ofMark (c := '(') rfl (fun _ _ => rfl) hFirst
    simpa [Node.render] using hAll

end Rendered

------------------------------------------------------------
-- Lists
------------------------------------------------------------

/- Items are further items after a comma. -/
theorem Spells.items_after_comma
    {own : Token → Token → Prop}
    {comma : Token}
    {e : Node}
    {es : List Node}
    {ts : List Token}
    (h : Spells own (.items (e :: es)) ts)
    (hComma : comma.kind = .comma) :
    Spells own (.furtherItems (e :: es)) (comma :: ts) := by
  cases h with
  | items hFirst hMore => exact .furtherItems hComma hFirst hMore

/- Items with commas between them. -/
theorem spells_intercalate
    {own : Token → Token → Prop}
    {es : List Node}
    {tss : List (List Token)}
    (h :
      List.Forall₂
        (fun e ts => Spells own (.expression e .call) ts) es tss) :
    Spells own (.items es)
      (List.intercalate [Token.ofMark .comma ','] tss) := by
  induction h with
  | nil => exact .noItems
  | cons hFirst hOthers ih =>
      cases hOthers with
      | nil =>
          have hItems := Spells.items hFirst .noFurtherItems
          simpa using hItems
      | cons hSecond hRest =>
          rw [List.intercalate_cons_cons, List.append_assoc]
          exact .items hFirst (ih.items_after_comma rfl)

/- The texts of expressions, with commas between them, are read
   as items. -/
theorem exists_items_of_rendered
    {es : List Node}
    (h : ∀ e ∈ es, Rendered e) :
    ∃ us, Spells Eq (.items es) us ∧
      ∀ sep, sep = "," ∨ sep = ", " →
        Writes (String.intercalate sep (Node.renderList es))
          us := by
  rw [Node.renderList_eq_map]
  rcases exists_intercalated
      (List.forall₂_map_right_iff.mpr
        (List.forall₂_same.mpr h)) with
    ⟨tss, hSpells, hWrites⟩
  exact ⟨_, spells_intercalate hSpells, hWrites⟩

/- A key, a colon, and a value. -/
def SpellsPair
    (p : Node × Node)
    (ts : List Token) : Prop :=
  ∃ ks vs,
    ts = ks ++ .ofMark .colon ':' :: vs ∧
      Spells Eq (.expression p.1 .call) ks ∧
      Spells Eq (.expression p.2 .call) vs

/- Pairs with commas between them. -/
theorem spells_pairs_intercalate
    {ps : List (Node × Node)}
    {tss : List (List Token)}
    (h : List.Forall₂ SpellsPair ps tss) :
    Spells Eq (.pairs ps)
      (List.intercalate [Token.ofMark .comma ','] tss) := by
  induction h with
  | nil => exact .noPairs
  | cons hFirst hOthers ih =>
      rcases hFirst with ⟨ks, vs, rfl, hKey, hValue⟩
      cases hOthers with
      | nil =>
          have hPair :
              Spells Eq (.pairs _)
                (ks ++ .ofMark .colon ':' :: vs) :=
            .lastPair hKey rfl hValue
          simpa using hPair
      | cons hSecond hRest =>
          have hPairs :
              Spells Eq (.pairs (_ :: _ :: _))
                (ks ++ .ofMark .colon ':' ::
                  (vs ++ .ofMark .comma ',' :: _)) :=
            .pairThen hKey rfl hValue rfl ih
          rw [List.intercalate_cons_cons]
          simpa using hPairs

/- The text of a pair is read as its key, a colon, and its
   value. -/
theorem exists_pair_of_rendered
    {p : Node × Node}
    (hKey : Rendered p.1)
    (hValue : Rendered p.2) :
    ∃ us, SpellsPair p us ∧
      Writes (p.1.render ++ ":" ++ p.2.render) us := by
  rcases hKey with ⟨ks, hKeySpells, hKeyWrites⟩
  rcases hValue with ⟨vs, hValueSpells, hValueWrites⟩
  exact ⟨_, ⟨ks, vs, rfl, hKeySpells, hValueSpells⟩,
    .pair (.inl rfl) hKeyWrites hValueWrites⟩

/- The texts of pairs, with commas between them, are read as
   pairs. -/
theorem exists_pairs_of_rendered
    {ps : List (Node × Node)}
    (h : ∀ p ∈ ps, Rendered p.1 ∧ Rendered p.2) :
    ∃ us, Spells Eq (.pairs ps) us ∧
      Writes (String.intercalate ", " (Node.renderPairs ps))
        us := by
  rw [Node.renderPairs_eq_map]
  rcases exists_intercalated
      (List.forall₂_map_right_iff.mpr
        (List.forall₂_same.mpr fun p hMem =>
          exists_pair_of_rendered (h p hMem).1 (h p hMem).2))
    with ⟨tss, hSpells, hWrites⟩
  exact ⟨_, spells_pairs_intercalate hSpells,
    hWrites ", " (.inr rfl)⟩

------------------------------------------------------------
-- Calls, Arrays, Indexings, and Hashes
------------------------------------------------------------

namespace Rendered

variable {opening : Token}
variable {callee left subscript : Node}

theorem call
    {args : List Node}
    (hToken : opening.WellFormed)
    (hOpening : opening.kind = .lparen)
    (hCallee : Rendered callee)
    (hArgs : ∀ e ∈ args, Rendered e) :
    Rendered (.call opening callee args) := by
  rcases hCallee with ⟨fs, hCalleeSpells, hCalleeWrites⟩
  rcases exists_items_of_rendered hArgs with
    ⟨us, hSpells, hWrites⟩
  refine ⟨fs ++ opening :: (us ++ [.ofMark .rparen ')']),
    .call hCalleeSpells hOpening rfl hSpells rfl, ?_⟩
  intro more _
  have hList :=
    (hWrites "," (.inl rfl)).enclosed (c := '(') (d := ')') hToken
      (by rw [hOpening]; rfl) rfl (by decide) (by decide) more
  have hAll :=
    (hCalleeWrites _ (standsApart_cons rfl)).trans hList
  simpa [Node.render] using hAll

theorem array
    {elements : List Node}
    (hToken : opening.WellFormed)
    (hOpening : opening.kind = .lbracket)
    (hElements : ∀ e ∈ elements, Rendered e) :
    Rendered (.array opening elements) := by
  rcases exists_items_of_rendered hElements with
    ⟨us, hSpells, hWrites⟩
  refine ⟨opening :: (us ++ [.ofMark .rbracket ']']),
    .array hOpening rfl hSpells rfl, ?_⟩
  intro more _
  have hList :=
    (hWrites ", " (.inr rfl)).enclosed (c := '[') (d := ']') hToken
      (by rw [hOpening]; rfl) rfl (by decide) (by decide) more
  simpa [Node.render] using hList

theorem index
    (hToken : opening.WellFormed)
    (hOpening : opening.kind = .lbracket)
    (hLeft : Rendered left)
    (hSubscript : Rendered subscript) :
    Rendered (.index opening left subscript) := by
  rcases hLeft with ⟨ls, hLeftSpells, hLeftWrites⟩
  rcases hSubscript with ⟨us, hSpells, hWrites⟩
  have hIndex :
      Spells Eq
        (.expression (.index opening left subscript) .call)
        (ls ++ opening :: (us ++ [.ofMark .rbracket ']'])) :=
    .index hLeftSpells hOpening rfl hSpells rfl
  refine group hIndex ?_
  intro more
  have hClosing :
      Scans (')' :: more) [.ofMark .rparen ')'] more :=
    .ofMark rfl (fun _ _ => rfl) .done
  have hInner :=
    hWrites.enclosed (c := '[') (d := ']') hToken
      (by rw [hOpening]; rfl) rfl (by decide) (by decide)
      (')' :: more)
  have hIndexed :=
    (hLeftWrites _ (standsApart_cons rfl)).trans
      (hInner.trans hClosing)
  have hAll :=
    Scans.ofMark (c := '(') rfl (fun _ _ => rfl) hIndexed
  simpa [Node.render] using hAll

theorem hash
    {pairs : List (Node × Node)}
    (hToken : opening.WellFormed)
    (hOpening : opening.kind = .lbrace)
    (hPairs : ∀ p ∈ pairs, Rendered p.1 ∧ Rendered p.2) :
    Rendered (.hash opening pairs) := by
  rcases exists_pairs_of_rendered hPairs with
    ⟨us, hSpells, hWrites⟩
  refine ⟨opening :: (us ++ [.ofMark .rbrace '}']),
    .hash hOpening rfl hSpells rfl, ?_⟩
  intro more _
  have hList :=
    hWrites.enclosed (c := '{') (d := '}') hToken
      (by rw [hOpening]; rfl) rfl (by decide) (by decide) more
  simpa [Node.render] using hList

end Rendered

------------------------------------------------------------
-- Statements
------------------------------------------------------------

/-
  The text of a statement is read as tokens that spell it, with
  a semicolon after them.  An expression has no semicolon, and
  as a statement it keeps another token if parentheses are put
  around it.
-/
def StatementRendered (s : Node) : Prop :=
  (∃ us, Spells Eq (.statement s) us ∧
    ∀ more,
      Scans (s.render.toList ++ more)
        (us ++ [.ofMark .semicolon ';']) more) ∨
    (s.isExprStmt = true ∧
      ∃ s' us, Spells Eq (.statement s') us ∧
        Writes s.render us ∧ s'.essence = s.essence)

/- A text that ends with a semicolon, whatever follows. -/
theorem Writes.closed
    {text : String}
    {us : List Token}
    (h : Writes text us)
    (more : List Char) :
    Scans (text.toList ++ ';' :: more)
      (us ++ [.ofMark .semicolon ';']) more :=
  (h (';' :: more) (standsApart_cons rfl)).trans
    (.ofMark rfl (fun _ _ => rfl) .done)

namespace StatementRendered

variable {word name : Token}
variable {value : Node}

theorem letStmt
    (hWord : word.WellFormed)
    (hWordKind : word.kind = .letWord)
    (hName : name.WellFormed)
    (hNameKind : name.kind = .ident)
    (hValue : Rendered value) :
    StatementRendered
      (.letStmt word { token := name, name := name.literal }
        value) := by
  rcases hValue with ⟨us, hSpells, hWrites⟩
  refine .inl
    ⟨word :: name :: .ofMark .assign '=' :: us,
      .letStmt hWordKind rfl hNameKind rfl rfl hSpells, ?_⟩
  intro more
  have hApart :
      TokenKind.assign.Apart
        (' ' :: (value.render.toList ++ ';' :: more)) := by
    rintro c hHead
    cases hHead
    rfl
  have hAssign :=
    Scans.ofMark (c := '=') rfl hApart
      (hWrites.closed more).space
  have hNamed :=
    (writes_token hName (by rw [hNameKind]; decide) _
      (standsApart_cons rfl)).trans hAssign.space
  have hAll :=
    (writes_token hWord (by rw [hWordKind]; decide) _
      (standsApart_cons rfl)).trans hNamed.space
  simpa [Node.render] using hAll

theorem bareReturn
    (hWord : word.WellFormed)
    (hKind : word.kind = .returnWord) :
    StatementRendered (.returnStmt word none) := by
  refine .inl ⟨[word], .bareReturn hKind rfl, ?_⟩
  intro more
  have hAll :=
    (writes_token hWord (by rw [hKind]; decide)).closed more
  simpa [Node.render] using hAll

theorem returnStmt
    (hWord : word.WellFormed)
    (hKind : word.kind = .returnWord)
    (hValue : Rendered value) :
    StatementRendered (.returnStmt word (some value)) := by
  rcases hValue with ⟨us, hSpells, hWrites⟩
  refine .inl ⟨word :: us, .returnStmt hKind rfl hSpells, ?_⟩
  intro more
  have hAll :=
    (writes_token hWord (by rw [hKind]; decide) _
      (standsApart_cons rfl)).trans
      (hWrites.closed more).space
  simpa [Node.render] using hAll

theorem exprStmt
    (hValue : Rendered value) :
    StatementRendered (.exprStmt word value) := by
  rcases hValue with ⟨us, hSpells, hWrites⟩
  rcases hSpells.expression_opens with ⟨first, rest, rfl, -⟩
  refine .inr ⟨rfl, .exprStmt first value, first :: rest,
    .exprStmt hSpells rfl, ?_, rfl⟩
  rw [Node.render]
  exact hWrites

end StatementRendered

------------------------------------------------------------
-- Phrases
------------------------------------------------------------

/- What the text of a phrase is read as, where it is plain. -/
def RendersAgain : Phrase → Prop
  | .expression e _ => e.isPlain = true → Rendered e
  | .items es =>
      Node.isPlainList es = true → ∀ e ∈ es, Rendered e
  | .furtherItems es =>
      Node.isPlainList es = true → ∀ e ∈ es, Rendered e
  | .pairs ps =>
      Node.isPlainPairs ps = true →
        ∀ p ∈ ps, Rendered p.1 ∧ Rendered p.2
  | .statement s => s.isPlain = true → StatementRendered s
  | .statements ss =>
      Node.isPlainList ss = true →
        ∀ s ∈ ss, StatementRendered s
  | _ => True

/-
  By induction on the spelling, whose tokens the nodes keep: a
  leaf is written as its token, and what holds its parts together
  has its text between brackets or before a semicolon.
-/
theorem Spells.rendersAgain
    {phrase : Phrase}
    {ts : List Token}
    (h : Spells Eq phrase ts)
    (hTokens : ∀ t ∈ ts, t.WellFormed) :
    RendersAgain phrase := by
  induction h with
  | identifier hKind hOwn =>
      subst hOwn
      exact fun _ => .identifier (hTokens _ (by simp)) hKind
  | integer hKind hDigits hOwn =>
      subst hOwn
      exact fun _ => .integer (hTokens _ (by simp)) hKind hDigits
  | string => exact nofun
  | boolTrue hKind hOwn =>
      subst hOwn
      exact fun _ => .boolTrue (hTokens _ (by simp)) hKind
  | boolFalse hKind hOwn =>
      subst hOwn
      exact fun _ => .boolFalse (hTokens _ (by simp)) hKind
  | prefixOp hKind hOwn _ _ ih =>
      subst hOwn
      rw [List.forall_mem_cons] at hTokens
      rcases hTokens with ⟨hToken, hOperand⟩
      intro hPlain
      rw [Node.isPlain] at hPlain
      exact .prefixOp hToken hKind (ih hOperand hPlain)
  | infixOp hKind hOwn _ _ _ _ ihLeft ihRight =>
      subst hOwn
      rw [List.forall_mem_append, List.forall_mem_cons]
        at hTokens
      rcases hTokens with ⟨hLeft, hToken, hRight⟩
      intro hPlain
      rw [Node.isPlain, Bool.and_eq_true] at hPlain
      exact .infixOp hToken hKind (ihLeft hLeft hPlain.1)
        (ihRight hRight hPlain.2)
  | group _ _ _ ih =>
      rw [List.forall_mem_cons, List.forall_mem_append]
        at hTokens
      exact ih hTokens.2.1
  | ifElse => exact nofun
  | function => exact nofun
  | call _ hOpening hOwn _ _ ihCallee ihArgs =>
      subst hOwn
      rw [List.forall_mem_append, List.forall_mem_cons,
        List.forall_mem_append] at hTokens
      rcases hTokens with ⟨hCallee, hToken, hArgs, -⟩
      intro hPlain
      rw [Node.isPlain, Bool.and_eq_true] at hPlain
      exact .call hToken hOpening (ihCallee hCallee hPlain.1)
        (ihArgs hArgs hPlain.2)
  | array hOpening hOwn _ _ ih =>
      subst hOwn
      rw [List.forall_mem_cons, List.forall_mem_append]
        at hTokens
      rcases hTokens with ⟨hToken, hElements, -⟩
      intro hPlain
      rw [Node.isPlain] at hPlain
      exact .array hToken hOpening (ih hElements hPlain)
  | index _ hOpening hOwn _ _ ihLeft ihSubscript =>
      subst hOwn
      rw [List.forall_mem_append, List.forall_mem_cons,
        List.forall_mem_append] at hTokens
      rcases hTokens with ⟨hLeft, hToken, hSubscript, -⟩
      intro hPlain
      rw [Node.isPlain, Bool.and_eq_true] at hPlain
      exact .index hToken hOpening (ihLeft hLeft hPlain.1)
        (ihSubscript hSubscript hPlain.2)
  | hash hOpening hOwn _ _ ih =>
      subst hOwn
      rw [List.forall_mem_cons, List.forall_mem_append]
        at hTokens
      rcases hTokens with ⟨hToken, hPairs, -⟩
      intro hPlain
      rw [Node.isPlain] at hPlain
      exact .hash hToken hOpening (ih hPairs hPlain)
  | noItems => exact fun _ => nofun
  | items _ _ ihFirst ihMore =>
      rw [List.forall_mem_append] at hTokens
      intro hPlain
      rw [Node.isPlainList, Bool.and_eq_true] at hPlain
      exact List.forall_mem_cons.mpr
        ⟨ihFirst hTokens.1 hPlain.1, ihMore hTokens.2 hPlain.2⟩
  | noFurtherItems => exact fun _ => nofun
  | furtherItems _ _ _ ihFirst ihMore =>
      rw [List.forall_mem_cons, List.forall_mem_append]
        at hTokens
      rcases hTokens with ⟨-, hFirst, hMore⟩
      intro hPlain
      rw [Node.isPlainList, Bool.and_eq_true] at hPlain
      exact List.forall_mem_cons.mpr
        ⟨ihFirst hFirst hPlain.1, ihMore hMore hPlain.2⟩
  | noPairs => exact fun _ => nofun
  | lastPair _ _ _ ihKey ihValue =>
      rw [List.forall_mem_append, List.forall_mem_cons]
        at hTokens
      rcases hTokens with ⟨hKey, -, hValue⟩
      intro hPlain
      simp only [Node.isPlainPairs, Bool.and_eq_true] at hPlain
      exact List.forall_mem_singleton.mpr
        ⟨ihKey hKey hPlain.1.1, ihValue hValue hPlain.1.2⟩
  | pairThen _ _ _ _ _ ihKey ihValue ihMore =>
      rw [List.forall_mem_append, List.forall_mem_cons,
        List.forall_mem_append, List.forall_mem_cons]
        at hTokens
      rcases hTokens with ⟨hKey, -, hValue, -, hMore⟩
      intro hPlain
      rw [Node.isPlainPairs, Bool.and_eq_true,
        Bool.and_eq_true] at hPlain
      exact List.forall_mem_cons.mpr
        ⟨⟨ihKey hKey hPlain.1.1, ihValue hValue hPlain.1.2⟩,
          ihMore hMore hPlain.2⟩
  | letStmt hWord hOwn hName hOwnName _ _ ih =>
      subst hOwn
      subst hOwnName
      simp only [List.forall_mem_cons] at hTokens
      rcases hTokens with ⟨hWordFormed, hNameFormed, -, hValue⟩
      intro hPlain
      rw [Node.isPlain] at hPlain
      exact .letStmt hWordFormed hWord hNameFormed hName
        (ih hValue hPlain)
  | bareReturn hWord hOwn =>
      subst hOwn
      exact fun _ => .bareReturn (hTokens _ (by simp)) hWord
  | returnStmt hWord hOwn _ ih =>
      subst hOwn
      rw [List.forall_mem_cons] at hTokens
      rcases hTokens with ⟨hToken, hValue⟩
      intro hPlain
      rw [Node.isPlain] at hPlain
      exact .returnStmt hToken hWord (ih hValue hPlain)
  | exprStmt _ hOwn ih =>
      intro hPlain
      rw [Node.isPlain] at hPlain
      exact .exprStmt (ih hTokens hPlain)
  | noStatements => exact fun _ => nofun
  | closedStatement _ _ _ ihFirst ihMore =>
      rw [List.forall_mem_append, List.forall_mem_cons]
        at hTokens
      rcases hTokens with ⟨hFirst, -, hMore⟩
      intro hPlain
      rw [Node.isPlainList, Bool.and_eq_true] at hPlain
      exact List.forall_mem_cons.mpr
        ⟨ihFirst hFirst hPlain.1, ihMore hMore hPlain.2⟩
  | openStatement _ _ _ ihFirst ihMore =>
      rw [List.forall_mem_append] at hTokens
      intro hPlain
      rw [Node.isPlainList, Bool.and_eq_true] at hPlain
      exact List.forall_mem_cons.mpr
        ⟨ihFirst hTokens.1 hPlain.1, ihMore hTokens.2 hPlain.2⟩
  | _ => trivial

------------------------------------------------------------
-- Programs
------------------------------------------------------------

/- The texts of statements, one after another. -/
theorem exists_statements_of_rendered
    {ss : List Node}
    (h : ∀ s ∈ ss, StatementRendered s)
    (hLast : ∀ s ∈ ss.dropLast, s.isExprStmt = false) :
    ∃ ss' us, Spells Eq (.statements ss') us ∧
      Writes (String.join (Node.renderList ss)) us ∧
        ss'.map Node.essence = ss.map Node.essence := by
  induction ss with
  | nil => exact ⟨[], [], .noStatements, fun _ _ => .done, rfl⟩
  | cons s ss ih =>
      rcases List.forall_mem_cons.mp h with ⟨hFirst, hOthers⟩
      rcases hFirst with
        ⟨us, hSpells, hWrites⟩ |
          ⟨hExpression, s', us, hSpells, hWrites, hEssence⟩
      · have hLast' :
            ∀ s' ∈ ss.dropLast, s'.isExprStmt = false := by
          intro s' hMem
          cases ss with
          | nil => cases hMem
          | cons => exact hLast s' (List.mem_cons_of_mem _ hMem)
        rcases ih hOthers hLast' with
          ⟨ss', vs, hMoreSpells, hMoreWrites, hEssences⟩
        refine ⟨s :: ss', us ++ .ofMark .semicolon ';' :: vs,
          .closedStatement hSpells rfl hMoreSpells, ?_,
          by rw [List.map_cons, hEssences, List.map_cons]⟩
        intro more hMore
        have hAll :=
          (hWrites _).trans (hMoreWrites more hMore)
        simpa [Node.renderList] using hAll
      · -- nothing can follow an expression
        cases ss with
        | cons =>
            rw [hLast s List.mem_cons_self] at hExpression
            cases hExpression
        | nil =>
            refine ⟨[s'], us ++ [],
              .openStatement hSpells ⟨fun _ => rfl, nofun⟩
                .noStatements, ?_, by simp [hEssence]⟩
            simpa [Node.renderList] using hWrites

/-
  Where a plain program with no expression before its last
  statement is read from a text, its own text is read as the
  same program once more, with the same outline and the same
  text.  To write the text, as many levels suffice as the tree
  is high, and to read it, as many as it has tokens; with fewer
  nothing else can come out of either but that the nesting is
  too deep.
-/
theorem parse_render
    (limit : Nat)
    (source : String)
    (p : Node)
    (h : parseWithin limit source = .ok p)
    (hPlain : p.isPlain = true)
    (hLast : p.hasExpressionsLast = true) :
    ∃ text p',
      (∀ levels, p.height ≤ levels →
        p.renderWithin levels = .ok text) ∧
      (∀ levels, p.renderWithin levels ≠ .error .tooDeep →
        p.renderWithin levels = .ok text) ∧
      (∀ limit', (bodyTokens text).length ≤ limit' →
        parseWithin limit' text = .ok p') ∧
      (∀ limit', parseWithin limit' text ≠ .error .tooDeep →
        parseWithin limit' text = .ok p') ∧
      (∃ o, p'.outline? = some o ∧ p.outline? = some o) ∧
      ∀ levels,
        p'.renderWithin levels = p.renderWithin levels := by
  rcases (known_of_parseWithin h).exists_outline with
    ⟨o, hOutline⟩
  cases spells_of_parseWithin h with
  | @program ss _ hStatements =>
      have hBody :
          ∀ t ∈ bodyTokens source, t.WellFormed := by
        rcases tokens_eq_bodyTokens_append source with
          ⟨stop, hTokens, -, hReal⟩
        intro t hMem
        have hText : t ∈ tokens source := by
          rw [hTokens]
          exact List.mem_append_left _ hMem
        exact wellFormed_of_mem_tokens hText (hReal t hMem)
      rw [Node.isPlain] at hPlain
      have hRendered :=
        hStatements.rendersAgain hBody hPlain
      have hOthers :
          ∀ s ∈ ss.dropLast, s.isExprStmt = false := by
        simpa [Node.hasExpressionsLast] using hLast
      rcases exists_statements_of_rendered hRendered hOthers with
        ⟨ss', us, hSpells, hWrites, hEssences⟩
      have hAlike :
          List.Forall₂ Token.Alike us
            (bodyTokens (Node.program ss).render) := by
        rw [Node.render]
        exact hWrites.bodyTokens
      rcases (Spells.program hSpells).exists_program_of_alike
          hAlike with
        ⟨p', hAgain, hEssence⟩
      have hSame : p'.essence = (Node.program ss).essence := by
        rw [hEssence, Node.essence_program, hEssences,
          Node.essence_program]
      refine ⟨_, p',
        fun _ hEnough => Node.renderWithin_of_height_le hEnough,
        fun _ hShown => Node.renderWithin_of_ne_tooDeep hShown,
        fun _ hEnough => parseWithin_of_spells hAgain hEnough,
        fun _ hReached =>
          parseWithin_eq_of_spells hAgain hReached,
        ⟨o, ?_, hOutline⟩, fun levels => ?_⟩
      · rw [← p'.outline?_essence, hSame, Node.outline?_essence,
          hOutline]
      · rw [← p'.renderWithin_essence, hSame,
          Node.renderWithin_essence]

/- Signs, calls, and indexings under a product. -/
theorem parse_render_product :
    let text :=
      "let x = ((-(f(1,[b])[0])) * 2);\x7bx:(!true)\x7d"
    ∃ p p',
      parseWithin 6
          "let x = -f(1, [b])[0] * 2; \x7bx: !true\x7d" =
        .ok p ∧
      p.isPlain = true ∧
      p.hasExpressionsLast = true ∧
      p.renderWithin 8 = .ok text ∧
      parseWithin 40 text = .ok p' ∧
      (∃ o, p'.outline? = some o ∧ p.outline? = some o) ∧
      p'.renderWithin 8 = .ok text := by
  intro text
  obtain ⟨p, hParse, hPlain, hLast, hHeight, hText⟩ :
      ∃ p,
        parseWithin 6
            "let x = -f(1, [b])[0] * 2; \x7bx: !true\x7d" =
          .ok p ∧
        p.isPlain = true ∧
        p.hasExpressionsLast = true ∧
        p.height ≤ 8 ∧
        p.render = text :=
    ⟨_, rfl, rfl, rfl, by decide, by decide +kernel⟩
  have hShown : p.renderWithin 8 = .ok text := by
    rw [Node.renderWithin_of_height_le hHeight, hText]
  rcases parse_render 6 _ p hParse hPlain hLast with
    ⟨text', p', hEnough, -, hAgain, -, hOutline, hSame⟩
  obtain rfl : text = text' :=
    Except.ok.inj (hShown.symm.trans (hEnough 8 hHeight))
  exact ⟨p, p', hParse, hPlain, hLast, hShown,
    hAgain 40 (by decide +kernel), hOutline,
    (hSame 8).trans hShown⟩

end Monkey
