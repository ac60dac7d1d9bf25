import Monkey.Proofs.Syntax.Known
import Monkey.Proofs.Syntax.Essence
import Monkey.Proofs.Syntax.MapNames
import Monkey.Proofs.Token.Partition

/-
  Outlines can be read.

  Whatever the parser reads from a text can be read from its
  outline as well, but for the places of tokens and for tokens
  that neither a leaf nor a keyword stands for.  So two programs
  of the same outline differ in no more than that.

  Main declarations:
    * `Node.leafTexts`
    * `Outline.node`
    * `Spells.legible`
    * `Node.Legible.outline?_eq_iff`
-/

namespace Monkey

------------------------------------------------------------
-- What an Outline Keeps
------------------------------------------------------------

/- A token of a kind and text at no place. -/
def Token.nowhere
    (kind : TokenKind)
    (literal : String) :
    Token :=
  { kind, literal, line := 0, column := 0 }

theorem Token.unplaced_eq
    {t : Token}
    {kind : TokenKind}
    {literal : String}
    (hKind : t.kind = kind)
    (hLiteral : t.literal = literal) :
    t.unplaced = .nowhere kind literal := by
  subst hKind
  subst hLiteral
  rfl

/- A name whose token is at no place. -/
def Identifier.unplaced (id : Identifier) : Identifier :=
  { id with token := id.token.unplaced }

namespace Node

/- A tree with no tokens but those of names and literals, and of
   the keywords `fn`, `let` and `return`, all at no place. -/
def leafTexts (n : Node) : Node :=
  n.mapNames Identifier.unplaced Token.unplaced fun _ => .blank

/- What a tree keeps besides has the same essence. -/
theorem essence_leafTexts
    (n : Node) :
    n.leafTexts.essence = n.essence := by
  unfold essence leafTexts
  rw [mapTokens_eq_mapNames, mapTokens_eq_mapNames,
    mapNames_comp]
  rfl

theorem outline?_leafTexts
    (n : Node) :
    n.leafTexts.outline? = n.outline? := by
  rw [← n.leafTexts.outline?_essence, n.essence_leafTexts,
    n.outline?_essence]

end Node

------------------------------------------------------------
-- Reading an Outline
------------------------------------------------------------

namespace Outline

/- The name that a leaf is of. -/
def leafName : Outline → Identifier
  | .leaf _ text =>
      { token := .nowhere .ident text, name := text }
  | .tree _ _ => { token := .blank, name := "" }

/- The parts of a node that stands for a pair. -/
def pairOf : Node → Node × Node
  | .index _ key value => (key, value)
  | _ => (.foreign, .foreign)

/-
  The node of a rule, made from the parts and from the nodes
  that these are read as.  Arguments stand together as an array
  until they come to the call, and a pair as an index until it
  comes to its hash.
-/
def assemble :
    String → List Outline → List Node → Node
  | "ident", [name], _ => .identifier name.leafName
  | "int", [.leaf _ text], _ =>
      .integer (.nowhere .int text) (digitsValue text.toList)
  | "bool", [.leaf "TRUE" text], _ =>
      .boolean (.nowhere .trueWord text) true
  | "bool", [.leaf "FALSE" text], _ =>
      .boolean (.nowhere .falseWord text) false
  | "string", [.leaf _ text], _ =>
      .string (.nowhere .string text) text
  | "prefix", [.leaf _ operator, _], [_, right] =>
      .prefixOp .blank operator right
  | "infix", [_, .leaf _ operator, _], [left, _, right] =>
      .infixOp .blank left operator right
  | "if_expr", _, [condition, consequence] =>
      .ifElse .blank condition consequence none
  | "if_expr", _, [condition, consequence, alternative] =>
      .ifElse .blank condition consequence (some alternative)
  | "fn", [.tree _ params, _], [_, body] =>
      .function (.nowhere .fnWord "fn")
        (params.map leafName) body
  | "args", _, args => .array .blank args
  | "call", _, [callee, .array _ args] =>
      .call .blank callee args
  | "array", _, elements => .array .blank elements
  | "index", _, [left, subscript] =>
      .index .blank left subscript
  | "pair", _, [key, value] => .index .blank key value
  | "hash", _, pairs => .hash .blank (pairs.map pairOf)
  | "let_stmt", [name, _], [_, value] =>
      .letStmt (.nowhere .letWord "let") name.leafName value
  | "return_stmt", _, [] =>
      .returnStmt (.nowhere .returnWord "return") none
  | "return_stmt", _, [value] =>
      .returnStmt (.nowhere .returnWord "return") (some value)
  | "expr_stmt", _, [expression] =>
      .exprStmt .blank expression
  | "block", _, statements => .block .blank statements
  | "program", _, statements => .program statements
  | _, _, _ => .foreign

mutual

/- What an outline is read as. -/
def node : Outline → Node
  | .leaf _ _ => .foreign
  | .tree rule children =>
      assemble rule children (nodes children)

/- What a list of outlines is read as. -/
def nodes : List Outline → List Node
  | [] => []
  | o :: rest => node o :: nodes rest

end

end Outline

------------------------------------------------------------
-- Legible Nodes
------------------------------------------------------------

/- The outline of a node can be read. -/
def Node.Legible (n : Node) : Prop :=
  ∃ o, n.outline? = some o ∧ o.node = n.leafTexts

namespace Node

/- The outlines of legible nodes, read one by one. -/
theorem legible_list
    {ns : List Node}
    (h : ∀ n ∈ ns, n.Legible) :
    ∃ os, outlineList? ns = some os ∧
      Outline.nodes os =
        mapNamesList Identifier.unplaced Token.unplaced
          (fun _ => .blank) ns := by
  induction ns with
  | nil => exact ⟨[], rfl, rfl⟩
  | cons n ns ih =>
      rcases List.forall_mem_cons.mp h with
        ⟨⟨o, hFirst, hRead⟩, hMore⟩
      rcases ih hMore with ⟨os, hOthers, hOthersRead⟩
      refine ⟨o :: os,
        by rw [outlineList?, hFirst, hOthers]; rfl, ?_⟩
      rw [Outline.nodes, hRead, hOthersRead]
      rfl

/- The outlines of legible pairs, read one by one. -/
theorem legible_pairs
    {ps : List (Node × Node)}
    (h : ∀ p ∈ ps, p.1.Legible ∧ p.2.Legible) :
    ∃ os, outlinePairs? ps = some os ∧
      (Outline.nodes os).map Outline.pairOf =
        mapNamesPairs Identifier.unplaced Token.unplaced
          (fun _ => .blank) ps := by
  induction ps with
  | nil => exact ⟨[], rfl, rfl⟩
  | cons p ps ih =>
      rcases List.forall_mem_cons.mp h with
        ⟨⟨⟨k, hKey, hKeyRead⟩, v, hValue, hValueRead⟩, hMore⟩
      rcases ih hMore with ⟨os, hOthers, hOthersRead⟩
      refine ⟨.tree "pair" [k, v] :: os,
        by rw [outlinePairs?, hKey, hValue, hOthers]; rfl, ?_⟩
      rw [Outline.nodes, List.map_cons, hOthersRead,
        mapNamesPairs]
      change (k.node, v.node) :: _ = _
      rw [hKeyRead, hValueRead]
      rfl

end Node

/- The name of an identifier token is read from its leaf. -/
theorem leafName_nameLeaf
    {t : Token}
    (hKind : t.kind = .ident) :
    (Node.nameLeaf { token := t, name := t.literal }).leafName =
      Identifier.unplaced { token := t, name := t.literal } := by
  unfold Node.nameLeaf Outline.leafName Identifier.unplaced
  rw [Token.unplaced_eq hKind rfl]

/- The names of parameters are read from their leaves. -/
theorem SpellsNames.leafNames
    {ids : List Identifier}
    {ts : List Token}
    (h : SpellsNames Eq ids ts) :
    (ids.map Node.nameLeaf).map Outline.leafName =
      ids.map Identifier.unplaced := by
  induction h with
  | none => rfl
  | one hName hOwn =>
      subst hOwn
      rw [List.map_singleton, List.map_singleton,
        leafName_nameLeaf hName]
      rfl
  | more hName hOwn _ _ ih =>
      subst hOwn
      rw [List.map_cons, List.map_cons, ih,
        leafName_nameLeaf hName]
      rfl

/- All nodes of a phrase are legible. -/
def Phrase.Legible : Phrase → Prop
  | .expression e _ => e.Legible
  | .alternative branch => ∀ n ∈ branch, n.Legible
  | .block b => b.Legible
  | .items es => ∀ e ∈ es, e.Legible
  | .furtherItems es => ∀ e ∈ es, e.Legible
  | .pairs ps => ∀ p ∈ ps, p.1.Legible ∧ p.2.Legible
  | .statement s => s.Legible
  | .statements ss => ∀ s ∈ ss, s.Legible
  | .program p => p.Legible

/- Only the keyword itself is a token of its kind. -/
theorem Token.WellFormed.unplaced_keyword
    {t : Token}
    (h : t.WellFormed)
    {word : String}
    {kind : TokenKind}
    (hEntry : (word, kind) ∈ TokenKind.keywords)
    (hKind : t.kind = kind) :
    t.unplaced = .nowhere kind word :=
  Token.unplaced_eq hKind ((h.kind_eq_iff hEntry).mp hKind).1

/-
  By induction on the spelling, whose tokens the nodes keep: a
  leaf has all there is to read of its token, and a rule has the
  parts of its node.
-/
theorem Spells.legible
    {phrase : Phrase}
    {ts : List Token}
    (h : Spells Eq phrase ts)
    (hTokens : ∀ t ∈ ts, t.WellFormed) :
    phrase.Legible := by
  induction h with
  | identifier hKind hOwn =>
      subst hOwn
      exact ⟨_, rfl,
        congrArg Node.identifier (leafName_nameLeaf hKind)⟩
  | integer hKind _ hOwn =>
      subst hOwn
      refine ⟨_, rfl, ?_⟩
      rw [Node.leafTexts, Node.mapNames,
        Token.unplaced_eq hKind rfl]
      rfl
  | string hKind hOwn =>
      subst hOwn
      refine ⟨_, rfl, ?_⟩
      rw [Node.leafTexts, Node.mapNames,
        Token.unplaced_eq hKind rfl]
      rfl
  | boolTrue hKind hOwn | boolFalse hKind hOwn =>
      subst hOwn
      refine ⟨_, rfl, ?_⟩
      rw [Node.leafTexts, Node.mapNames,
        Token.unplaced_eq hKind rfl, hKind]
      rfl
  | prefixOp _ _ _ _ ih =>
      rcases ih fun t hMem => hTokens t (by simp [hMem]) with
        ⟨o, hRight, hRead⟩
      refine ⟨_, by rw [Node.outline?, hRight]; rfl, ?_⟩
      change Node.prefixOp _ _ o.node = _
      rw [hRead]
      rfl
  | infixOp _ _ _ _ _ _ ihLeft ihRight =>
      rcases ihLeft fun t hMem => hTokens t (by simp [hMem]) with
        ⟨l, hLeft, hLeftRead⟩
      rcases ihRight fun t hMem => hTokens t (by simp [hMem]) with
        ⟨r, hRight, hRightRead⟩
      refine ⟨_, by rw [Node.outline?, hLeft, hRight]; rfl, ?_⟩
      change Node.infixOp _ l.node _ r.node = _
      rw [hLeftRead, hRightRead]
      rfl
  | group _ _ _ ih =>
      exact ih fun t hMem => hTokens t (by simp [hMem])
  | @ifElse _ _ _ _ _ _ otherwise _ _ _ _ _ _ _ _ _ _ _
      ihCondition ihConsequence ihOtherwise =>
      rcases ihCondition fun t hMem =>
          hTokens t (by simp [hMem]) with
        ⟨c, hC, hCRead⟩
      rcases ihConsequence fun t hMem =>
          hTokens t (by simp [hMem]) with
        ⟨b, hB, hBRead⟩
      have hBranch : ∀ n ∈ otherwise, n.Legible :=
        ihOtherwise fun t hMem => hTokens t (by simp [hMem])
      cases otherwise with
      | none =>
          refine ⟨_, by rw [Node.outline?, hC, hB]; rfl, ?_⟩
          change Node.ifElse _ c.node b.node none = _
          rw [hCRead, hBRead]
          rfl
      | some branch =>
          rcases hBranch branch rfl with ⟨e, hE, hERead⟩
          refine ⟨_, by rw [Node.outline?, hC, hB, hE]; rfl, ?_⟩
          change Node.ifElse _ c.node b.node (some e.node) = _
          rw [hCRead, hBRead, hERead]
          rfl
  | function hWord hOwn _ hParams _ _ ih =>
      subst hOwn
      have hFn :=
        (hTokens _ List.mem_cons_self).unplaced_keyword
          (by decide : ("fn", _) ∈ TokenKind.keywords) hWord
      rcases ih fun t hMem => hTokens t (by simp [hMem]) with
        ⟨b, hBody, hRead⟩
      refine ⟨_, by rw [Node.outline?, hBody]; rfl, ?_⟩
      change Node.function _ (List.map _ (List.map _ _))
        b.node = _
      rw [hRead, hParams.leafNames, Node.leafTexts,
        Node.leafTexts, Node.mapNames, hFn]
  | call _ _ _ _ _ ihCallee ihArgs =>
      rcases ihCallee fun t hMem =>
          hTokens t (by simp [hMem]) with
        ⟨f, hCallee, hRead⟩
      rcases Node.legible_list (ihArgs fun t hMem =>
          hTokens t (by simp [hMem])) with
        ⟨os, hArgs, hArgsRead⟩
      refine ⟨_, by rw [Node.outline?, hCallee, hArgs]; rfl, ?_⟩
      change Node.call _ f.node (Outline.nodes os) = _
      rw [hRead, hArgsRead]
      rfl
  | array _ _ _ _ ih =>
      rcases Node.legible_list (ih fun t hMem =>
          hTokens t (by simp [hMem])) with
        ⟨os, hElements, hRead⟩
      refine ⟨_, by rw [Node.outline?, hElements]; rfl, ?_⟩
      change Node.array _ (Outline.nodes os) = _
      rw [hRead]
      rfl
  | index _ _ _ _ _ ihLeft ihSubscript =>
      rcases ihLeft fun t hMem => hTokens t (by simp [hMem]) with
        ⟨l, hLeft, hLeftRead⟩
      rcases ihSubscript fun t hMem =>
          hTokens t (by simp [hMem]) with
        ⟨i, hSubscript, hRead⟩
      refine ⟨_, by rw [Node.outline?, hLeft, hSubscript]; rfl,
        ?_⟩
      change Node.index _ l.node i.node = _
      rw [hLeftRead, hRead]
      rfl
  | hash _ _ _ _ ih =>
      rcases Node.legible_pairs (ih fun t hMem =>
          hTokens t (by simp [hMem])) with
        ⟨os, hPairs, hRead⟩
      refine ⟨_, by rw [Node.outline?, hPairs]; rfl, ?_⟩
      change Node.hash _ ((Outline.nodes os).map _) = _
      rw [hRead]
      rfl
  | noAlternative => exact nofun
  | alternative _ _ ih =>
      rintro n ⟨⟩
      exact ih fun t hMem => hTokens t (by simp [hMem])
  | block _ _ _ _ ih =>
      rcases Node.legible_list (ih fun t hMem =>
          hTokens t (by simp [hMem])) with
        ⟨os, hStatements, hRead⟩
      refine ⟨_, by rw [Node.outline?, hStatements]; rfl, ?_⟩
      change Node.block _ (Outline.nodes os) = _
      rw [hRead]
      rfl
  | noItems | noFurtherItems | noPairs | noStatements =>
      exact nofun
  | items _ _ ihFirst ihMore | furtherItems _ _ _ ihFirst ihMore
  | closedStatement _ _ _ ihFirst ihMore
  | openStatement _ _ _ ihFirst ihMore =>
      exact List.forall_mem_cons.mpr
        ⟨ihFirst fun t hMem => hTokens t (by simp [hMem]),
          ihMore fun t hMem => hTokens t (by simp [hMem])⟩
  | lastPair _ _ _ ihKey ihValue =>
      exact List.forall_mem_singleton.mpr
        ⟨ihKey fun t hMem => hTokens t (by simp [hMem]),
          ihValue fun t hMem => hTokens t (by simp [hMem])⟩
  | pairThen _ _ _ _ _ ihKey ihValue ihMore =>
      exact List.forall_mem_cons.mpr
        ⟨⟨ihKey fun t hMem => hTokens t (by simp [hMem]),
          ihValue fun t hMem => hTokens t (by simp [hMem])⟩,
          ihMore fun t hMem => hTokens t (by simp [hMem])⟩
  | letStmt hWord hOwn hName hOwnName _ _ ih =>
      subst hOwn
      subst hOwnName
      have hLet :=
        (hTokens _ List.mem_cons_self).unplaced_keyword
          (by decide : ("let", _) ∈ TokenKind.keywords) hWord
      rcases ih fun t hMem => hTokens t (by simp [hMem]) with
        ⟨v, hValue, hRead⟩
      refine ⟨_, by rw [Node.outline?, hValue]; rfl, ?_⟩
      change Node.letStmt _ (Node.nameLeaf _).leafName v.node = _
      rw [hRead, leafName_nameLeaf hName, Node.leafTexts,
        Node.leafTexts, Node.mapNames, hLet]
  | bareReturn hWord hOwn =>
      subst hOwn
      have hReturn :=
        (hTokens _ List.mem_cons_self).unplaced_keyword
          (by decide : ("return", _) ∈ TokenKind.keywords) hWord
      refine ⟨_, rfl, ?_⟩
      rw [Node.leafTexts, Node.mapNames, hReturn]
      rfl
  | returnStmt hWord hOwn _ ih =>
      subst hOwn
      have hReturn :=
        (hTokens _ List.mem_cons_self).unplaced_keyword
          (by decide : ("return", _) ∈ TokenKind.keywords) hWord
      rcases ih fun t hMem => hTokens t (by simp [hMem]) with
        ⟨v, hValue, hRead⟩
      refine ⟨_, by rw [Node.outline?, hValue]; rfl, ?_⟩
      change Node.returnStmt _ (some v.node) = _
      rw [hRead, Node.leafTexts, Node.leafTexts, Node.mapNames,
        hReturn]
  | exprStmt _ _ ih =>
      rcases ih hTokens with ⟨o, hExpression, hRead⟩
      refine ⟨_, by rw [Node.outline?, hExpression]; rfl, ?_⟩
      change Node.exprStmt _ o.node = _
      rw [hRead]
      rfl
  | program _ ih =>
      rcases Node.legible_list (ih hTokens) with
        ⟨os, hStatements, hRead⟩
      refine ⟨_, by rw [Node.outline?, hStatements]; rfl, ?_⟩
      change Node.program (Outline.nodes os) = _
      rw [hRead]
      rfl

------------------------------------------------------------
-- Programs
------------------------------------------------------------

/- Every program that the parser gives has an outline, which is
   read as the program. -/
theorem legible_of_parseWithin
    {limit : Nat}
    {source : String}
    {p : Node}
    (h : parseWithin limit source = .ok p) :
    p.Legible :=
  (spells_of_parseWithin h).legible
    fun _ => wellFormed_of_mem_bodyTokens

/- Legible nodes have the same outline just if they differ in
   nothing that an outline keeps. -/
theorem Node.Legible.outline?_eq_iff
    {p q : Node}
    (hP : p.Legible)
    (hQ : q.Legible) :
    p.outline? = q.outline? ↔ p.leafTexts = q.leafTexts := by
  constructor
  · intro hOutlines
    rcases hP with ⟨o, hOutline, hRead⟩
    rcases hQ with ⟨o', hOutline', hRead'⟩
    rw [hOutline, hOutline', Option.some.injEq] at hOutlines
    rw [← hRead, hOutlines, hRead']
  · intro hSame
    rw [← p.outline?_leafTexts, hSame, q.outline?_leafTexts]

end Monkey
