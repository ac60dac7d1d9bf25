import Monkey.Parse.Grammar
import Monkey.Proofs.Syntax.MapTokens

/-
  Spellings: which token sequences a syntax tree can be
  written as.

  `Spells` relates the phrases of the language to tokens and
  knows nothing of how a parser goes about reading them.  The
  strength of an expression says how its spelling holds
  together: an infix operator has its own, a prefix operator
  `unary`, and everything else, in particular anything between
  parentheses, `call`.  Operands ask for a strength, and this
  is where parentheses are needed.

  Main declarations:
    * `Node.bare`
    * `Spells`
    * `Spells.retoken`
-/

namespace Monkey

------------------------------------------------------------
-- Trees Without Tokens
------------------------------------------------------------

/- A token that stands for no place in a text. -/
def Token.blank : Token where
  kind := .illegal
  literal := ""
  line := 0
  column := 0

/- An identifier without its token. -/
def Identifier.bare (id : Identifier) : Identifier where
  token := .blank
  name := id.name

namespace Node

mutual

/- A tree without the tokens of its nodes. -/
def bare : Node → Node
  | .identifier id => .identifier id.bare
  | .integer _ n => .integer .blank n
  | .boolean _ b => .boolean .blank b
  | .string _ s => .string .blank s
  | .prefixOp _ operator right =>
      .prefixOp .blank operator (bare right)
  | .infixOp _ left operator right =>
      .infixOp .blank (bare left) operator (bare right)
  | .ifElse _ condition consequence none =>
      .ifElse .blank (bare condition) (bare consequence) none
  | .ifElse _ condition consequence (some alternative) =>
      .ifElse .blank (bare condition) (bare consequence)
        (some (bare alternative))
  | .function _ params body =>
      .function .blank (params.map Identifier.bare)
        (bare body)
  | .call _ callee args =>
      .call .blank (bare callee) (bareList args)
  | .array _ elements => .array .blank (bareList elements)
  | .index _ left subscript =>
      .index .blank (bare left) (bare subscript)
  | .hash _ pairs => .hash .blank (barePairs pairs)
  | .letStmt _ name value =>
      .letStmt .blank name.bare (bare value)
  | .returnStmt _ none => .returnStmt .blank none
  | .returnStmt _ (some value) =>
      .returnStmt .blank (some (bare value))
  | .exprStmt _ expression =>
      .exprStmt .blank (bare expression)
  | .block _ statements =>
      .block .blank (bareList statements)
  | .program statements => .program (bareList statements)
  | .foreign => .foreign

/- A list of trees without tokens. -/
def bareList : List Node → List Node
  | [] => []
  | n :: rest => bare n :: bareList rest

/- Pairs of trees without tokens. -/
def barePairs : List (Node × Node) → List (Node × Node)
  | [] => []
  | (key, value) :: rest =>
      (bare key, bare value) :: barePairs rest

end

@[simp] theorem bare_ifElse
    (t : Token)
    (condition consequence : Node)
    (alternative : Option Node) :
    (ifElse t condition consequence alternative).bare =
      ifElse .blank condition.bare consequence.bare
        (alternative.map bare) := by
  cases alternative <;> simp [bare]

mutual

/- Without its tokens a tree has blank ones. -/
theorem mapTokens_blank :
    ∀ n : Node,
      n.mapTokens (fun _ => .blank) (fun _ => .blank) = n.bare
  | .identifier _ => rfl
  | .integer _ _ => rfl
  | .boolean _ _ => rfl
  | .string _ _ => rfl
  | .prefixOp _ _ right => by
      simp [mapTokens, bare, mapTokens_blank right]
  | .infixOp _ left _ right => by
      simp [mapTokens, bare, mapTokens_blank left,
        mapTokens_blank right]
  | .ifElse _ condition consequence none => by
      simp [mapTokens, bare, mapTokens_blank condition,
        mapTokens_blank consequence]
  | .ifElse _ condition consequence (some alternative) => by
      simp [mapTokens, bare, mapTokens_blank condition,
        mapTokens_blank consequence,
        mapTokens_blank alternative]
  | .function _ _ body => by
      simp [mapTokens, bare, mapTokens_blank body,
        Identifier.bare]
  | .call _ callee args => by
      simp [mapTokens, bare, mapTokens_blank callee,
        mapTokensList_blank args]
  | .array _ elements => by
      simp [mapTokens, bare, mapTokensList_blank elements]
  | .index _ left subscript => by
      simp [mapTokens, bare, mapTokens_blank left,
        mapTokens_blank subscript]
  | .hash _ pairs => by
      simp [mapTokens, bare, mapTokensPairs_blank pairs]
  | .letStmt _ _ value => by
      simp [mapTokens, bare, mapTokens_blank value,
        Identifier.bare]
  | .returnStmt _ none => rfl
  | .returnStmt _ (some value) => by
      simp [mapTokens, bare, mapTokens_blank value]
  | .exprStmt _ expression => by
      simp [mapTokens, bare, mapTokens_blank expression]
  | .block _ statements => by
      simp [mapTokens, bare, mapTokensList_blank statements]
  | .program statements => by
      simp [mapTokens, bare, mapTokensList_blank statements]
  | .foreign => rfl

theorem mapTokensList_blank :
    ∀ ns : List Node,
      mapTokensList (fun _ => .blank) (fun _ => .blank) ns =
        bareList ns
  | [] => rfl
  | n :: rest => by
      simp [mapTokensList, bareList, mapTokens_blank n,
        mapTokensList_blank rest]

theorem mapTokensPairs_blank :
    ∀ ps : List (Node × Node),
      mapTokensPairs (fun _ => .blank) (fun _ => .blank) ps =
        barePairs ps
  | [] => rfl
  | (key, value) :: rest => by
      simp [mapTokensPairs, barePairs, mapTokens_blank key,
        mapTokens_blank value, mapTokensPairs_blank rest]

end

end Node

------------------------------------------------------------
-- Phrases
------------------------------------------------------------

/-
  What tokens can spell.  An expression comes with its
  strength.  A statement is spelled without a semicolon;
  statements of a list may have one each.
-/
inductive Phrase where
  | expression (e : Node) (strength : Precedence)
  | alternative (branch : Option Node)
  | block (b : Node)
  | items (es : List Node)
  | furtherItems (es : List Node)
  | pairs (ps : List (Node × Node))
  | statement (s : Node)
  | statements (ss : List Node)
  | program (p : Node)

------------------------------------------------------------
-- Spellings
------------------------------------------------------------

namespace TokenKind

/- The kinds of the infix operators. -/
def IsInfix (kind : TokenKind) : Prop :=
  kind ∈ [eq, notEq, lt, gt, plus, minus, slash, asterisk]

instance (kind : TokenKind) : Decidable kind.IsInfix := by
  unfold IsInfix
  infer_instance

/- An infix operator binds, and less than a prefix operator. -/
theorem IsInfix.strength
    {kind : TokenKind}
    (h : kind.IsInfix) :
    Precedence.lowest.rank < kind.precedence.rank ∧
      kind.precedence.rank < Precedence.unary.rank := by
  simp only [IsInfix, List.mem_cons, List.not_mem_nil,
    or_false] at h
  rcases h with
    rfl | rfl | rfl | rfl | rfl | rfl | rfl | rfl <;>
    decide

/- The kinds of the prefix operators. -/
def IsSign (kind : TokenKind) : Prop :=
  kind = bang ∨ kind = minus

end TokenKind

/- A `return` without an expression. -/
def Node.IsBareReturn (s : Node) : Prop :=
  ∃ t, s = .returnStmt t none

/-
  Whether a statement without a semicolon is over before the
  given tokens: a bare `return` only at the end of its list,
  and any other where the next token cannot go on with an
  expression.
-/
def Node.EndsBefore
    (s : Node)
    (following : List Token) : Prop :=
  (s.IsBareReturn → following = []) ∧
    ∀ t ∈ following.head?, t.kind.precedence = .lowest

/- A bare `return` is one with any tokens. -/
theorem Node.isBareReturn_mapTokens
    {f g : Token → Token}
    (s : Node) :
    (s.mapTokens f g).IsBareReturn ↔ s.IsBareReturn := by
  constructor
  · rintro ⟨t, hTokens⟩
    cases s with
    | returnStmt u value =>
        cases value with
        | none => exact ⟨u, rfl⟩
        | some value => simp at hTokens
    | ifElse => simp at hTokens
    | _ => simp [mapTokens] at hTokens
  · rintro ⟨t, rfl⟩
    exact ⟨f t, rfl⟩

theorem Node.EndsBefore.of_mapTokens
    {f g : Token → Token}
    {s s' : Node}
    {following : List Token}
    (h : s.EndsBefore following)
    (hSame : s'.mapTokens f g = s.mapTokens f g) :
    s'.EndsBefore following := by
  refine ⟨fun hReturn => h.1 ?_, h.2⟩
  rw [← s.isBareReturn_mapTokens (f := f) (g := g), ← hSame]
  exact s'.isBareReturn_mapTokens.mpr hReturn

/- No token binds more tightly than a call. -/
theorem Precedence.rank_le_call
    (p : Precedence) :
    p.rank ≤ Precedence.call.rank := by
  cases p <;> decide

/-
  Whether an expression of strength `b` can stand where a
  parser asks for what binds more tightly than `asked`: prefix
  operators may follow each other.
-/
def Precedence.Admits (asked b : Precedence) : Prop :=
  asked.rank < b.rank ∨ (asked = .unary ∧ b = .unary)

section

variable (own : Token → Token → Prop)

/-
  Tokens spell parameter names with commas between them.  Here
  and below, `own u t` says which token `u` a node may keep for
  the token `t` of the text.
-/
inductive SpellsNames :
    List Identifier → List Token → Prop
  | none : SpellsNames [] []
  | one
      {t u : Token}
      (hName : t.kind = .ident)
      (hOwn : own u t) :
      SpellsNames [{ token := u, name := t.literal }] [t]
  | more
      {t u comma : Token}
      {second : Identifier}
      {ids : List Identifier}
      {ts : List Token}
      (hName : t.kind = .ident)
      (hOwn : own u t)
      (hComma : comma.kind = .comma)
      (hMore : SpellsNames (second :: ids) ts) :
      SpellsNames
        ({ token := u, name := t.literal } :: second :: ids)
        (t :: comma :: ts)

/- Tokens spell a phrase. -/
inductive Spells : Phrase → List Token → Prop
  | identifier
      {t u : Token}
      (hKind : t.kind = .ident)
      (hOwn : own u t) :
      Spells
        (.expression
          (.identifier { token := u, name := t.literal })
          .call)
        [t]
  | integer
      {t u : Token}
      (hKind : t.kind = .int)
      (hDigits : t.literal.length ≤ digitLimit)
      (hOwn : own u t) :
      Spells
        (.expression
          (.integer u (digitsValue t.literal.toList)) .call)
        [t]
  | string
      {t u : Token}
      (hKind : t.kind = .string)
      (hOwn : own u t) :
      Spells (.expression (.string u t.literal) .call) [t]
  | boolTrue
      {t u : Token}
      (hKind : t.kind = .trueWord)
      (hOwn : own u t) :
      Spells (.expression (.boolean u true) .call) [t]
  | boolFalse
      {t u : Token}
      (hKind : t.kind = .falseWord)
      (hOwn : own u t) :
      Spells (.expression (.boolean u false) .call) [t]
  | prefixOp
      {t u : Token}
      {right : Node}
      {b : Precedence}
      {rs : List Token}
      (hKind : t.kind.IsSign)
      (hOwn : own u t)
      (hRight : Spells (.expression right b) rs)
      (hStrength : Precedence.unary.rank ≤ b.rank) :
      Spells
        (.expression (.prefixOp u t.literal right) .unary)
        (t :: rs)
  | infixOp
      {t u : Token}
      {left right : Node}
      {a b : Precedence}
      {ls rs : List Token}
      (hKind : t.kind.IsInfix)
      (hOwn : own u t)
      (hLeft : Spells (.expression left a) ls)
      (hLeftStrength : t.kind.precedence.rank ≤ a.rank)
      (hRight : Spells (.expression right b) rs)
      (hRightStrength : t.kind.precedence.rank < b.rank) :
      Spells
        (.expression (.infixOp u left t.literal right)
          t.kind.precedence)
        (ls ++ t :: rs)
  | group
      {opening closing : Token}
      {e : Node}
      {b : Precedence}
      {ts : List Token}
      (hOpening : opening.kind = .lparen)
      (hInner : Spells (.expression e b) ts)
      (hClosing : closing.kind = .rparen) :
      Spells (.expression e .call)
        (opening :: (ts ++ [closing]))
  | ifElse
      {word u opening closing : Token}
      {condition consequence : Node}
      {otherwise : Option Node}
      {b : Precedence}
      {cs ts es : List Token}
      (hWord : word.kind = .ifWord)
      (hOwn : own u word)
      (hOpening : opening.kind = .lparen)
      (hCondition : Spells (.expression condition b) cs)
      (hClosing : closing.kind = .rparen)
      (hConsequence : Spells (.block consequence) ts)
      (hOtherwise : Spells (.alternative otherwise) es) :
      Spells
        (.expression
          (.ifElse u condition consequence otherwise) .call)
        (word :: opening :: (cs ++ closing :: (ts ++ es)))
  | function
      {word u opening closing : Token}
      {params : List Identifier}
      {body : Node}
      {ns ts : List Token}
      (hWord : word.kind = .fnWord)
      (hOwn : own u word)
      (hOpening : opening.kind = .lparen)
      (hParams : SpellsNames own params ns)
      (hClosing : closing.kind = .rparen)
      (hBody : Spells (.block body) ts) :
      Spells (.expression (.function u params body) .call)
        (word :: opening :: (ns ++ closing :: ts))
  | call
      {opening closing u : Token}
      {callee : Node}
      {args : List Node}
      {fs ts : List Token}
      (hCallee : Spells (.expression callee .call) fs)
      (hOpening : opening.kind = .lparen)
      (hOwn : own u opening)
      (hArgs : Spells (.items args) ts)
      (hClosing : closing.kind = .rparen) :
      Spells (.expression (.call u callee args) .call)
        (fs ++ opening :: (ts ++ [closing]))
  | array
      {opening closing u : Token}
      {elements : List Node}
      {ts : List Token}
      (hOpening : opening.kind = .lbracket)
      (hOwn : own u opening)
      (hElements : Spells (.items elements) ts)
      (hClosing : closing.kind = .rbracket) :
      Spells (.expression (.array u elements) .call)
        (opening :: (ts ++ [closing]))
  | index
      {opening closing u : Token}
      {left subscript : Node}
      {b : Precedence}
      {ls ts : List Token}
      (hLeft : Spells (.expression left .call) ls)
      (hOpening : opening.kind = .lbracket)
      (hOwn : own u opening)
      (hSubscript : Spells (.expression subscript b) ts)
      (hClosing : closing.kind = .rbracket) :
      Spells (.expression (.index u left subscript) .call)
        (ls ++ opening :: (ts ++ [closing]))
  | hash
      {opening closing u : Token}
      {pairs : List (Node × Node)}
      {ts : List Token}
      (hOpening : opening.kind = .lbrace)
      (hOwn : own u opening)
      (hPairs : Spells (.pairs pairs) ts)
      (hClosing : closing.kind = .rbrace) :
      Spells (.expression (.hash u pairs) .call)
        (opening :: (ts ++ [closing]))
  | noAlternative :
      Spells (.alternative none) []
  | alternative
      {word : Token}
      {branch : Node}
      {ts : List Token}
      (hWord : word.kind = .elseWord)
      (hBranch : Spells (.block branch) ts) :
      Spells (.alternative (some branch)) (word :: ts)
  | block
      {opening closing u : Token}
      {ss : List Node}
      {ts : List Token}
      (hOpening : opening.kind = .lbrace)
      (hOwn : own u opening)
      (hStatements : Spells (.statements ss) ts)
      (hClosing : closing.kind = .rbrace) :
      Spells (.block (.block u ss))
        (opening :: (ts ++ [closing]))
  | noItems :
      Spells (.items []) []
  | items
      {e : Node}
      {es : List Node}
      {b : Precedence}
      {ts us : List Token}
      (hFirst : Spells (.expression e b) ts)
      (hMore : Spells (.furtherItems es) us) :
      Spells (.items (e :: es)) (ts ++ us)
  | noFurtherItems :
      Spells (.furtherItems []) []
  | furtherItems
      {comma : Token}
      {e : Node}
      {es : List Node}
      {b : Precedence}
      {ts us : List Token}
      (hComma : comma.kind = .comma)
      (hFirst : Spells (.expression e b) ts)
      (hMore : Spells (.furtherItems es) us) :
      Spells (.furtherItems (e :: es)) (comma :: (ts ++ us))
  | noPairs :
      Spells (.pairs []) []
  | lastPair
      {colon : Token}
      {key value : Node}
      {a b : Precedence}
      {ks vs : List Token}
      (hKey : Spells (.expression key a) ks)
      (hColon : colon.kind = .colon)
      (hValue : Spells (.expression value b) vs) :
      Spells (.pairs [(key, value)]) (ks ++ colon :: vs)
  | pairThen
      {colon comma : Token}
      {key value : Node}
      {ps : List (Node × Node)}
      {a b : Precedence}
      {ks vs us : List Token}
      (hKey : Spells (.expression key a) ks)
      (hColon : colon.kind = .colon)
      (hValue : Spells (.expression value b) vs)
      (hComma : comma.kind = .comma)
      (hMore : Spells (.pairs ps) us) :
      Spells (.pairs ((key, value) :: ps))
        (ks ++ colon :: (vs ++ comma :: us))
  | letStmt
      {word u name v assign : Token}
      {value : Node}
      {b : Precedence}
      {ts : List Token}
      (hWord : word.kind = .letWord)
      (hOwn : own u word)
      (hName : name.kind = .ident)
      (hOwnName : own v name)
      (hAssign : assign.kind = .assign)
      (hValue : Spells (.expression value b) ts) :
      Spells
        (.statement
          (.letStmt u { token := v, name := name.literal }
            value))
        (word :: name :: assign :: ts)
  | bareReturn
      {word u : Token}
      (hWord : word.kind = .returnWord)
      (hOwn : own u word) :
      Spells (.statement (.returnStmt u none)) [word]
  | returnStmt
      {word u : Token}
      {value : Node}
      {b : Precedence}
      {ts : List Token}
      (hWord : word.kind = .returnWord)
      (hOwn : own u word)
      (hValue : Spells (.expression value b) ts) :
      Spells (.statement (.returnStmt u (some value)))
        (word :: ts)
  | exprStmt
      {first u : Token}
      {e : Node}
      {b : Precedence}
      {ts : List Token}
      (hExpression : Spells (.expression e b) (first :: ts))
      (hOwn : own u first) :
      Spells (.statement (.exprStmt u e)) (first :: ts)
  | noStatements :
      Spells (.statements []) []
  | closedStatement
      {s : Node}
      {semicolon : Token}
      {ss : List Node}
      {ts us : List Token}
      (hFirst : Spells (.statement s) ts)
      (hSemicolon : semicolon.kind = .semicolon)
      (hMore : Spells (.statements ss) us) :
      Spells (.statements (s :: ss)) (ts ++ semicolon :: us)
  | openStatement
      {s : Node}
      {ss : List Node}
      {ts us : List Token}
      (hFirst : Spells (.statement s) ts)
      (hEnd : s.EndsBefore us)
      (hMore : Spells (.statements ss) us) :
      Spells (.statements (s :: ss)) (ts ++ us)
  | program
      {ss : List Node}
      {ts : List Token}
      (hStatements : Spells (.statements ss) ts) :
      Spells (.program (.program ss)) ts

end

------------------------------------------------------------
-- First Tokens
------------------------------------------------------------

namespace TokenKind

/- The kinds that an expression can start with. -/
def StartsExpression (kind : TokenKind) : Prop :=
  kind ∈
    [ident, int, string, trueWord, falseWord, bang, minus,
      lparen, ifWord, fnWord, lbracket, lbrace]

/- The kinds that a statement can start with. -/
def StartsStatement (kind : TokenKind) : Prop :=
  kind = letWord ∨ kind = returnWord ∨ kind.StartsExpression

instance (kind : TokenKind) :
    Decidable kind.StartsExpression := by
  unfold StartsExpression
  infer_instance

instance (kind : TokenKind) :
    Decidable kind.StartsStatement := by
  unfold StartsStatement
  infer_instance

end TokenKind

namespace Spells

variable {own : Token → Token → Prop}

/- What the first token of a phrase tells, where it has to have
   one. -/
def Opens : Phrase → List Token → Prop
  | .expression _ _, ts =>
      ∃ t rest, ts = t :: rest ∧ t.kind.StartsExpression
  | .statement _, ts =>
      ∃ t rest, ts = t :: rest ∧ t.kind.StartsStatement
  | _, _ => True

theorem opens
    {phrase : Phrase}
    {ts : List Token}
    (h : Spells own phrase ts) :
    Opens phrase ts := by
  induction h with
  | identifier hKind =>
      exact ⟨_, _, rfl, by rw [hKind]; decide⟩
  | integer hKind =>
      exact ⟨_, _, rfl, by rw [hKind]; decide⟩
  | string hKind =>
      exact ⟨_, _, rfl, by rw [hKind]; decide⟩
  | boolTrue hKind =>
      exact ⟨_, _, rfl, by rw [hKind]; decide⟩
  | boolFalse hKind =>
      exact ⟨_, _, rfl, by rw [hKind]; decide⟩
  | prefixOp hKind =>
      refine ⟨_, _, rfl, ?_⟩
      rcases hKind with hKind | hKind <;>
        rw [hKind] <;> decide
  | infixOp _ _ _ _ _ _ ihLeft =>
      rcases ihLeft with ⟨t, rest, rfl, hStart⟩
      exact ⟨t, _, rfl, hStart⟩
  | group hOpening =>
      exact ⟨_, _, rfl, by rw [hOpening]; decide⟩
  | ifElse hWord =>
      exact ⟨_, _, rfl, by rw [hWord]; decide⟩
  | function hWord =>
      exact ⟨_, _, rfl, by rw [hWord]; decide⟩
  | call _ _ _ _ _ ihCallee =>
      rcases ihCallee with ⟨t, rest, rfl, hStart⟩
      exact ⟨t, _, rfl, hStart⟩
  | array hOpening =>
      exact ⟨_, _, rfl, by rw [hOpening]; decide⟩
  | index _ _ _ _ _ ihLeft =>
      rcases ihLeft with ⟨t, rest, rfl, hStart⟩
      exact ⟨t, _, rfl, hStart⟩
  | hash hOpening =>
      exact ⟨_, _, rfl, by rw [hOpening]; decide⟩
  | letStmt hWord =>
      exact ⟨_, _, rfl, by rw [hWord]; decide⟩
  | bareReturn hWord =>
      exact ⟨_, _, rfl, by rw [hWord]; decide⟩
  | returnStmt hWord =>
      exact ⟨_, _, rfl, by rw [hWord]; decide⟩
  | exprStmt _ _ ih =>
      rcases ih with ⟨t, rest, hTokens, hStart⟩
      exact ⟨t, rest, hTokens, .inr (.inr hStart)⟩
  | _ => trivial

/- An expression has a first token, of a kind that starts
   expressions. -/
theorem expression_opens
    {e : Node}
    {b : Precedence}
    {ts : List Token}
    (h : Spells own (.expression e b) ts) :
    ∃ t rest, ts = t :: rest ∧ t.kind.StartsExpression :=
  h.opens

/- A statement has a first token, of a kind that starts
   statements. -/
theorem statement_opens
    {s : Node}
    {ts : List Token}
    (h : Spells own (.statement s) ts) :
    ∃ t rest, ts = t :: rest ∧ t.kind.StartsStatement :=
  h.opens

/- The first token of statements, if there is one, starts a
   statement. -/
theorem statements_opens
    {ss : List Node}
    {ts : List Token}
    (h : Spells own (.statements ss) ts) :
    ∀ t ∈ ts.head?, t.kind.StartsStatement := by
  intro t hHead
  cases h with
  | noStatements => simp at hHead
  | closedStatement hFirst =>
      rcases hFirst.statement_opens with ⟨u, rest, rfl, hStart⟩
      simp only [List.cons_append, List.head?_cons,
        Option.mem_def, Option.some.injEq] at hHead
      exact hHead ▸ hStart
  | openStatement hFirst =>
      rcases hFirst.statement_opens with ⟨u, rest, rfl, hStart⟩
      simp only [List.cons_append, List.head?_cons,
        Option.mem_def, Option.some.injEq] at hHead
      exact hHead ▸ hStart

/- Every expression holds together somehow. -/
theorem strength_pos
    {e : Node}
    {b : Precedence}
    {ts : List Token}
    (h : Spells own (.expression e b) ts) :
    Precedence.lowest.rank < b.rank := by
  cases h with
  | infixOp hKind => exact hKind.strength.1
  | _ => decide

------------------------------------------------------------
-- Last Tokens
------------------------------------------------------------

/- Tokens that end with one that is no semicolon. -/
def EndOpen (ts : List Token) : Prop :=
  ∃ us last, ts = us ++ [last] ∧ last.kind ≠ .semicolon

theorem EndOpen.append
    {ts : List Token}
    (h : EndOpen ts)
    (us : List Token) :
    EndOpen (us ++ ts) := by
  rcases h with ⟨vs, last, rfl, hLast⟩
  exact ⟨us ++ vs, last, by rw [List.append_assoc], hLast⟩

theorem EndOpen.cons
    {ts : List Token}
    (h : EndOpen ts)
    (t : Token) :
    EndOpen (t :: ts) :=
  h.append [t]

theorem endOpen_singleton
    {t : Token}
    {kind : TokenKind}
    (hKind : t.kind = kind)
    (hOpen : kind ≠ .semicolon) :
    EndOpen [t] :=
  ⟨[], t, rfl, hKind ▸ hOpen⟩

/- What the last token of a phrase tells, where it cannot be a
   semicolon. -/
def Closes : Phrase → List Token → Prop
  | .expression _ _, ts => EndOpen ts
  | .block _, ts => EndOpen ts
  | .alternative _, ts => ts = [] ∨ EndOpen ts
  | .statement _, ts => EndOpen ts
  | _, _ => True

theorem closes
    {phrase : Phrase}
    {ts : List Token}
    (h : Spells own phrase ts) :
    Closes phrase ts := by
  have hEnclosed :
      ∀ {opening closing : Token} {ts : List Token}
        {kind : TokenKind},
        closing.kind = kind → kind ≠ .semicolon →
          EndOpen (opening :: (ts ++ [closing])) :=
    fun hKind hOpen =>
      ((endOpen_singleton hKind hOpen).append _).cons _
  induction h with
  | identifier hKind => exact endOpen_singleton hKind (by decide)
  | integer hKind => exact endOpen_singleton hKind (by decide)
  | string hKind => exact endOpen_singleton hKind (by decide)
  | boolTrue hKind => exact endOpen_singleton hKind (by decide)
  | boolFalse hKind =>
      exact endOpen_singleton hKind (by decide)
  | prefixOp _ _ _ _ ih => exact ih.cons _
  | infixOp _ _ _ _ _ _ _ ihRight =>
      exact (ihRight.cons _).append _
  | group _ _ hClosing => exact hEnclosed hClosing (by decide)
  | ifElse _ _ _ _ _ _ _ _ ihConsequence ihOtherwise =>
      refine ((EndOpen.cons ?_ _).append _).cons _ |>.cons _
      rcases ihOtherwise with rfl | hOtherwise
      · rw [List.append_nil]
        exact ihConsequence
      · exact hOtherwise.append _
  | function _ _ _ _ _ _ ihBody =>
      exact (((ihBody.cons _).append _).cons _).cons _
  | call _ _ _ _ hClosing =>
      exact (hEnclosed hClosing (by decide)).append _
  | array _ _ _ hClosing => exact hEnclosed hClosing (by decide)
  | index _ _ _ _ hClosing =>
      exact (hEnclosed hClosing (by decide)).append _
  | hash _ _ _ hClosing => exact hEnclosed hClosing (by decide)
  | noAlternative => exact .inl rfl
  | alternative _ _ ih => exact .inr (ih.cons _)
  | block _ _ _ hClosing => exact hEnclosed hClosing (by decide)
  | letStmt _ _ _ _ _ _ ih =>
      exact ((ih.cons _).cons _).cons _
  | bareReturn hWord => exact endOpen_singleton hWord (by decide)
  | returnStmt _ _ _ ih => exact ih.cons _
  | exprStmt _ _ ih => exact ih
  | _ => trivial

/- The last token of an expression is no semicolon. -/
theorem expression_closes
    {e : Node}
    {b : Precedence}
    {ts : List Token}
    (h : Spells own (.expression e b) ts) :
    ∃ us last, ts = us ++ [last] ∧ last.kind ≠ .semicolon :=
  h.closes

/- The last token of a statement is no semicolon. -/
theorem statement_closes
    {s : Node}
    {ts : List Token}
    (h : Spells own (.statement s) ts) :
    ∃ us last, ts = us ++ [last] ∧ last.kind ≠ .semicolon :=
  h.closes

------------------------------------------------------------
-- Tokens of the Text in a Tree
------------------------------------------------------------

end Spells

section

variable {own : Token → Token → Prop}
variable {f g : Token → Token}

/-
  Whatever tokens the names keep, the same text spells names
  that keep its own tokens.
-/
theorem SpellsNames.retoken
    {ids : List Identifier}
    {ts : List Token}
    (h : SpellsNames own ids ts)
    (hOwn : ∀ u t, own u t → g t = g u) :
    ∃ ids', SpellsNames Eq ids' ts ∧
      (ids'.map fun id => { id with token := g id.token }) =
        ids.map fun id => { id with token := g id.token } := by
  induction h with
  | none => exact ⟨_, .none, rfl⟩
  | one hName hToken =>
      exact ⟨_, .one hName rfl, by simp [hOwn _ _ hToken]⟩
  | more hName hToken hComma _ ih =>
      rcases ih with ⟨ids', hIds, hSame⟩
      cases ids' with
      | nil => simp at hSame
      | cons id ids' =>
          refine ⟨_, .more hName rfl hComma hIds, ?_⟩
          rw [List.map_cons, hSame, hOwn _ _ hToken]
          rfl

namespace Spells

/-
  A phrase like the given one, spelled by the same tokens, whose
  nodes keep the tokens of the text.
-/
def Retokened
    (f g : Token → Token) : Phrase → List Token → Prop
  | .expression e b, ts =>
      ∃ e', Spells Eq (.expression e' b) ts ∧
        e'.mapTokens f g = e.mapTokens f g
  | .alternative branch, ts =>
      ∃ branch', Spells Eq (.alternative branch') ts ∧
        branch'.map (Node.mapTokens f g) =
          branch.map (Node.mapTokens f g)
  | .block b, ts =>
      ∃ b', Spells Eq (.block b') ts ∧
        b'.mapTokens f g = b.mapTokens f g
  | .items es, ts =>
      ∃ es', Spells Eq (.items es') ts ∧
        Node.mapTokensList f g es' =
          Node.mapTokensList f g es
  | .furtherItems es, ts =>
      ∃ es', Spells Eq (.furtherItems es') ts ∧
        Node.mapTokensList f g es' =
          Node.mapTokensList f g es
  | .pairs ps, ts =>
      ∃ ps', Spells Eq (.pairs ps') ts ∧
        Node.mapTokensPairs f g ps' =
          Node.mapTokensPairs f g ps
  | .statement s, ts =>
      ∃ s', Spells Eq (.statement s') ts ∧
        s'.mapTokens f g = s.mapTokens f g
  | .statements ss, ts =>
      ∃ ss', Spells Eq (.statements ss') ts ∧
        Node.mapTokensList f g ss' =
          Node.mapTokensList f g ss
  | .program p, ts =>
      ∃ p', Spells Eq (.program p') ts ∧
        p'.mapTokens f g = p.mapTokens f g

/- What own tokens are mapped to stays the same if they are
   mapped as those of the text are. -/
theorem exists_retokened
    {phrase : Phrase}
    {ts : List Token}
    (h : Spells own phrase ts)
    (hShown : ∀ u t, own u t → f t = f u)
    (hOther : ∀ u t, own u t → g t = g u) :
    Retokened f g phrase ts := by
  induction h with
  | identifier hKind hOwn =>
      exact ⟨_, .identifier hKind rfl,
        by simp [Node.mapTokens, hOther _ _ hOwn]⟩
  | integer hKind hDigits hOwn =>
      exact ⟨_, .integer hKind hDigits rfl,
        by simp [Node.mapTokens, hShown _ _ hOwn]⟩
  | string hKind hOwn =>
      exact ⟨_, .string hKind rfl,
        by simp [Node.mapTokens, hShown _ _ hOwn]⟩
  | boolTrue hKind hOwn =>
      exact ⟨_, .boolTrue hKind rfl,
        by simp [Node.mapTokens, hShown _ _ hOwn]⟩
  | boolFalse hKind hOwn =>
      exact ⟨_, .boolFalse hKind rfl,
        by simp [Node.mapTokens, hShown _ _ hOwn]⟩
  | prefixOp hKind hOwn _ hStrength ih =>
      rcases ih with ⟨right, hRight, hSame⟩
      exact ⟨_, .prefixOp hKind rfl hRight hStrength,
        by simp [Node.mapTokens, hOther _ _ hOwn, hSame]⟩
  | infixOp hKind hOwn _ hLeftStrength _ hRightStrength
      ihLeft ihRight =>
      rcases ihLeft with ⟨left, hLeft, hLeftSame⟩
      rcases ihRight with ⟨right, hRight, hRightSame⟩
      exact ⟨_, .infixOp hKind rfl hLeft hLeftStrength
        hRight hRightStrength,
        by simp [Node.mapTokens, hOther _ _ hOwn, hLeftSame,
          hRightSame]⟩
  | group hOpening _ hClosing ih =>
      rcases ih with ⟨e, hInner, hSame⟩
      exact ⟨e, .group hOpening hInner hClosing, hSame⟩
  | ifElse hWord hOwn hOpening _ hClosing _ _
      ihCondition ihConsequence ihOtherwise =>
      rcases ihCondition with ⟨c, hCondition, hC⟩
      rcases ihConsequence with ⟨t, hConsequence, hT⟩
      rcases ihOtherwise with ⟨o, hOtherwise, hO⟩
      exact ⟨_, .ifElse hWord rfl hOpening hCondition
        hClosing hConsequence hOtherwise,
        by simp [hC, hT, hO, hOther _ _ hOwn]⟩
  | function hWord hOwn hOpening hParams hClosing _ ih =>
      rcases hParams.retoken hOther with
        ⟨params, hNames, hParamsSame⟩
      rcases ih with ⟨body, hBody, hSame⟩
      exact ⟨_, .function hWord rfl hOpening hNames hClosing
        hBody,
        by simp [Node.mapTokens, hParamsSame, hSame,
          hShown _ _ hOwn]⟩
  | call _ hOpening hOwn _ hClosing ihCallee ihArgs =>
      rcases ihCallee with ⟨callee, hCallee, hSame⟩
      rcases ihArgs with ⟨args, hArgs, hArgsSame⟩
      exact ⟨_, .call hCallee hOpening rfl hArgs hClosing,
        by simp [Node.mapTokens, hOther _ _ hOwn, hSame, hArgsSame]⟩
  | array hOpening hOwn _ hClosing ih =>
      rcases ih with ⟨es, hElements, hSame⟩
      exact ⟨_, .array hOpening rfl hElements hClosing,
        by simp [Node.mapTokens, hOther _ _ hOwn, hSame]⟩
  | index _ hOpening hOwn _ hClosing ihLeft ihSubscript =>
      rcases ihLeft with ⟨left, hLeft, hLeftSame⟩
      rcases ihSubscript with ⟨i, hSubscript, hSame⟩
      exact ⟨_, .index hLeft hOpening rfl hSubscript hClosing,
        by simp [Node.mapTokens, hOther _ _ hOwn, hLeftSame, hSame]⟩
  | hash hOpening hOwn _ hClosing ih =>
      rcases ih with ⟨ps, hPairs, hSame⟩
      exact ⟨_, .hash hOpening rfl hPairs hClosing,
        by simp [Node.mapTokens, hOther _ _ hOwn, hSame]⟩
  | noAlternative => exact ⟨_, .noAlternative, rfl⟩
  | alternative hWord _ ih =>
      rcases ih with ⟨branch, hBranch, hSame⟩
      exact ⟨_, .alternative hWord hBranch, by simp [hSame]⟩
  | block hOpening hOwn _ hClosing ih =>
      rcases ih with ⟨ss, hStatements, hSame⟩
      exact ⟨_, .block hOpening rfl hStatements hClosing,
        by simp [Node.mapTokens, hOther _ _ hOwn, hSame]⟩
  | noItems => exact ⟨_, .noItems, rfl⟩
  | items _ _ ihFirst ihMore =>
      rcases ihFirst with ⟨e, hFirst, hSame⟩
      rcases ihMore with ⟨es, hMore, hMoreSame⟩
      exact ⟨_, .items hFirst hMore,
        by simp [Node.mapTokensList, hSame, hMoreSame]⟩
  | noFurtherItems => exact ⟨_, .noFurtherItems, rfl⟩
  | furtherItems hComma _ _ ihFirst ihMore =>
      rcases ihFirst with ⟨e, hFirst, hSame⟩
      rcases ihMore with ⟨es, hMore, hMoreSame⟩
      exact ⟨_, .furtherItems hComma hFirst hMore,
        by simp [Node.mapTokensList, hSame, hMoreSame]⟩
  | noPairs => exact ⟨_, .noPairs, rfl⟩
  | lastPair _ hColon _ ihKey ihValue =>
      rcases ihKey with ⟨k, hKey, hKeySame⟩
      rcases ihValue with ⟨v, hValue, hValueSame⟩
      exact ⟨_, .lastPair hKey hColon hValue,
        by simp [Node.mapTokensPairs, hKeySame, hValueSame]⟩
  | pairThen _ hColon _ hComma _ ihKey ihValue ihMore =>
      rcases ihKey with ⟨k, hKey, hKeySame⟩
      rcases ihValue with ⟨v, hValue, hValueSame⟩
      rcases ihMore with ⟨ps, hMore, hMoreSame⟩
      exact ⟨_, .pairThen hKey hColon hValue hComma hMore,
        by simp [Node.mapTokensPairs, hKeySame, hValueSame,
          hMoreSame]⟩
  | letStmt hWord hOwn hName hOwnName hAssign _ ih =>
      rcases ih with ⟨value, hValue, hSame⟩
      exact ⟨_, .letStmt hWord rfl hName rfl hAssign hValue,
        by simp [Node.mapTokens, hSame, hShown _ _ hOwn,
          hOther _ _ hOwnName]⟩
  | bareReturn hWord hOwn =>
      exact ⟨_, .bareReturn hWord rfl,
        by simp [hShown _ _ hOwn]⟩
  | returnStmt hWord hOwn _ ih =>
      rcases ih with ⟨value, hValue, hSame⟩
      exact ⟨_, .returnStmt hWord rfl hValue,
        by simp [Node.mapTokens, hShown _ _ hOwn, hSame]⟩
  | exprStmt _ hOwn ih =>
      rcases ih with ⟨e, hExpression, hSame⟩
      exact ⟨_, .exprStmt hExpression rfl,
        by simp [Node.mapTokens, hOther _ _ hOwn, hSame]⟩
  | noStatements => exact ⟨_, .noStatements, rfl⟩
  | closedStatement _ hSemicolon _ ihFirst ihMore =>
      rcases ihFirst with ⟨s, hFirst, hSame⟩
      rcases ihMore with ⟨ss, hMore, hMoreSame⟩
      exact ⟨_, .closedStatement hFirst hSemicolon hMore,
        by simp [Node.mapTokensList, hSame, hMoreSame]⟩
  | openStatement _ hEnd _ ihFirst ihMore =>
      rcases ihFirst with ⟨s, hFirst, hSame⟩
      rcases ihMore with ⟨ss, hMore, hMoreSame⟩
      exact ⟨_, .openStatement hFirst (hEnd.of_mapTokens hSame)
        hMore,
        by simp [Node.mapTokensList, hSame, hMoreSame]⟩
  | program _ ih =>
      rcases ih with ⟨ss, hStatements, hSame⟩
      exact ⟨_, .program hStatements,
        by simp [Node.mapTokens, hSame]⟩

/- The same text spells a program with its own tokens. -/
theorem retoken
    {e : Node}
    {ts : List Token}
    (h : Spells own (.program e) ts) :
    ∃ p, Spells Eq (.program p) ts ∧ p.bare = e.bare := by
  rcases h.exists_retokened (f := fun _ => .blank)
      (g := fun _ => .blank) (fun _ _ _ => rfl)
      (fun _ _ _ => rfl) with ⟨p, hSpells, hSame⟩
  rw [p.mapTokens_blank, e.mapTokens_blank] at hSame
  exact ⟨p, hSpells, hSame⟩

end Spells

end

end Monkey
