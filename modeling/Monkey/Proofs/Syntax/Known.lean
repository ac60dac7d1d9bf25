import Monkey.Proofs.Parse.Soundness
import Monkey.Syntax.Outline

/-
  Nodes of the language.

  A node is known if there is no foreign object in it, however
  deep.  Known nodes have outlines.  Whatever tokens spell is
  known, and so is every program that the parser gives.

  Main declarations:
    * `Node.parts`
    * `Node.Known`
    * `Node.Known.exists_outline`
    * `known_of_parseWithin`
-/

namespace Monkey

------------------------------------------------------------
-- Parts
------------------------------------------------------------

namespace Node

/- The nodes right below a node. -/
def parts : Node → List Node
  | .prefixOp _ _ right => [right]
  | .infixOp _ left _ right => [left, right]
  | .ifElse _ condition consequence alternative =>
      condition :: consequence :: alternative.toList
  | .function _ _ body => [body]
  | .call _ callee args => callee :: args
  | .array _ elements => elements
  | .index _ left subscript => [left, subscript]
  | .hash _ pairs =>
      pairs.flatMap fun pair => [pair.1, pair.2]
  | .letStmt _ _ value => [value]
  | .returnStmt _ value => value.toList
  | .exprStmt _ expression => [expression]
  | .block _ statements => statements
  | .program statements => statements
  | _ => []

/- No foreign object is in a node. -/
inductive Known : Node → Prop
  | of_parts
      {n : Node}
      (hSelf : n ≠ .foreign)
      (hParts : ∀ part ∈ n.parts, Known part) :
      Known n

theorem Known.part
    {n part : Node}
    (h : n.Known)
    (hPart : part ∈ n.parts) :
    part.Known := by
  cases h with
  | of_parts _ hParts => exact hParts part hPart

theorem not_known_foreign :
    ¬ Node.foreign.Known := by
  rintro ⟨hSelf, -⟩
  exact hSelf rfl

------------------------------------------------------------
-- Outlines of Known Nodes
------------------------------------------------------------

/- A list of nodes has outlines if each of them has one. -/
theorem exists_outlineList
    {ns : List Node}
    (h : ∀ n ∈ ns, ∃ o, n.outline? = some o) :
    ∃ os, outlineList? ns = some os := by
  induction ns with
  | nil => exact ⟨[], rfl⟩
  | cons n ns ih =>
      rcases List.forall_mem_cons.mp h with ⟨⟨o, hFirst⟩, hMore⟩
      rcases ih hMore with ⟨os, hOthers⟩
      exact ⟨o :: os, by rw [outlineList?, hFirst, hOthers]; rfl⟩

/- Pairs have outlines if their keys and values have. -/
theorem exists_outlinePairs
    {ps : List (Node × Node)}
    (h :
      ∀ p ∈ ps, ∀ n ∈ [p.1, p.2], ∃ o, n.outline? = some o) :
    ∃ os, outlinePairs? ps = some os := by
  induction ps with
  | nil => exact ⟨[], rfl⟩
  | cons p ps ih =>
      rcases List.forall_mem_cons.mp h with ⟨hFirst, hMore⟩
      rcases hFirst p.1 (by simp) with ⟨k, hKey⟩
      rcases hFirst p.2 (by simp) with ⟨v, hValue⟩
      rcases ih hMore with ⟨os, hOthers⟩
      exact ⟨.tree "pair" [k, v] :: os, by
        rw [outlinePairs?, hKey, hValue, hOthers]; rfl⟩

/- Nothing but a foreign object is without an outline. -/
theorem Known.exists_outline
    {n : Node}
    (h : n.Known) :
    ∃ o, n.outline? = some o := by
  induction h with
  | @of_parts n hSelf _ ih =>
      cases n with
      | identifier | integer | boolean | string => exact ⟨_, rfl⟩
      | foreign => exact absurd rfl hSelf
      | prefixOp _ _ right | function _ _ right
      | letStmt _ _ right | exprStmt _ right =>
          rcases ih right List.mem_cons_self with ⟨o, hRight⟩
          rw [outline?, hRight]
          exact ⟨_, rfl⟩
      | infixOp _ left _ right | index _ left right =>
          rcases ih left (by simp [parts]) with ⟨l, hLeft⟩
          rcases ih right (by simp [parts]) with ⟨r, hRight⟩
          rw [outline?, hLeft, hRight]
          exact ⟨_, rfl⟩
      | ifElse _ condition consequence alternative =>
          rcases ih condition (by simp [parts]) with ⟨c, hC⟩
          rcases ih consequence (by simp [parts]) with ⟨t, hT⟩
          cases alternative with
          | none =>
              rw [outline?, hC, hT]
              exact ⟨_, rfl⟩
          | some branch =>
              rcases ih branch (by simp [parts]) with ⟨e, hE⟩
              rw [outline?, hC, hT, hE]
              exact ⟨_, rfl⟩
      | call _ callee args =>
          rcases List.forall_mem_cons.mp ih with ⟨⟨f, hF⟩, hArgs⟩
          rcases exists_outlineList hArgs with ⟨xs, hXs⟩
          rw [outline?, hF, hXs]
          exact ⟨_, rfl⟩
      | array _ ns | block _ ns | program ns =>
          obtain ⟨os, hAll⟩ : ∃ os, outlineList? ns = some os :=
            exists_outlineList ih
          rw [outline?, hAll]
          exact ⟨_, rfl⟩
      | hash _ pairs =>
          rcases exists_outlinePairs fun p hMem n hIn =>
              ih n (List.mem_flatMap.mpr ⟨p, hMem, hIn⟩) with
            ⟨os, hAll⟩
          rw [outline?, hAll]
          exact ⟨_, rfl⟩
      | returnStmt _ value =>
          cases value with
          | none => exact ⟨_, rfl⟩
          | some value =>
              rcases ih value (by simp [parts]) with ⟨o, hValue⟩
              rw [outline?, hValue]
              exact ⟨_, rfl⟩

end Node

------------------------------------------------------------
-- Spelled Nodes
------------------------------------------------------------

/- All nodes of a phrase are known. -/
def Phrase.Known : Phrase → Prop
  | .expression e _ => e.Known
  | .alternative branch => ∀ n ∈ branch, n.Known
  | .block b => b.Known
  | .items es => ∀ e ∈ es, e.Known
  | .furtherItems es => ∀ e ∈ es, e.Known
  | .pairs ps => ∀ p ∈ ps, p.1.Known ∧ p.2.Known
  | .statement s => s.Known
  | .statements ss => ∀ s ∈ ss, s.Known
  | .program p => p.Known

/- What tokens spell is known. -/
theorem Spells.known
    {own : Token → Token → Prop}
    {phrase : Phrase}
    {ts : List Token}
    (h : Spells own phrase ts) :
    phrase.Known := by
  induction h with
  | identifier | integer | string | boolTrue | boolFalse
  | bareReturn =>
      exact .of_parts nofun nofun
  | prefixOp _ _ _ _ ih =>
      exact .of_parts nofun (List.forall_mem_singleton.mpr ih)
  | infixOp _ _ _ _ _ _ ihLeft ihRight =>
      refine .of_parts nofun ?_
      exact List.forall_mem_cons.mpr
        ⟨ihLeft, List.forall_mem_singleton.mpr ihRight⟩
  | group _ _ _ ih => exact ih
  | ifElse _ _ _ _ _ _ _ ihCondition ihConsequence
      ihOtherwise =>
      refine .of_parts nofun ?_
      refine List.forall_mem_cons.mpr ⟨ihCondition, ?_⟩
      refine List.forall_mem_cons.mpr ⟨ihConsequence, ?_⟩
      exact fun n hMem => ihOtherwise n (Option.mem_toList.mp hMem)
  | function _ _ _ _ _ _ ih =>
      exact .of_parts nofun (List.forall_mem_singleton.mpr ih)
  | call _ _ _ _ _ ihCallee ihArgs =>
      exact .of_parts nofun
        (List.forall_mem_cons.mpr ⟨ihCallee, ihArgs⟩)
  | array _ _ _ _ ih => exact .of_parts nofun ih
  | index _ _ _ _ _ ihLeft ihSubscript =>
      refine .of_parts nofun ?_
      exact List.forall_mem_cons.mpr
        ⟨ihLeft, List.forall_mem_singleton.mpr ihSubscript⟩
  | hash _ _ _ _ ih =>
      refine .of_parts nofun fun part hPart => ?_
      rcases List.mem_flatMap.mp hPart with ⟨pair, hPair, hIn⟩
      simp only [List.mem_cons, List.not_mem_nil, or_false]
        at hIn
      rcases hIn with rfl | rfl
      · exact (ih pair hPair).1
      · exact (ih pair hPair).2
  | noAlternative => exact nofun
  | alternative _ _ ih =>
      rintro n ⟨⟩
      exact ih
  | block _ _ _ _ ih => exact .of_parts nofun ih
  | noItems | noFurtherItems | noPairs | noStatements =>
      exact nofun
  | items _ _ ihFirst ihMore =>
      exact List.forall_mem_cons.mpr ⟨ihFirst, ihMore⟩
  | furtherItems _ _ _ ihFirst ihMore =>
      exact List.forall_mem_cons.mpr ⟨ihFirst, ihMore⟩
  | lastPair _ _ _ ihKey ihValue =>
      exact List.forall_mem_singleton.mpr ⟨ihKey, ihValue⟩
  | pairThen _ _ _ _ _ ihKey ihValue ihMore =>
      exact List.forall_mem_cons.mpr ⟨⟨ihKey, ihValue⟩, ihMore⟩
  | letStmt _ _ _ _ _ _ ih =>
      exact .of_parts nofun (List.forall_mem_singleton.mpr ih)
  | returnStmt _ _ _ ih =>
      exact .of_parts nofun (List.forall_mem_singleton.mpr ih)
  | exprStmt _ _ ih =>
      exact .of_parts nofun (List.forall_mem_singleton.mpr ih)
  | closedStatement _ _ _ ihFirst ihMore =>
      exact List.forall_mem_cons.mpr ⟨ihFirst, ihMore⟩
  | openStatement _ _ _ ihFirst ihMore =>
      exact List.forall_mem_cons.mpr ⟨ihFirst, ihMore⟩
  | program _ ih => exact .of_parts nofun ih

/- The parser makes known nodes only. -/
theorem known_of_parseWithin
    {limit : Nat}
    {source : String}
    {p : Node}
    (h : parseWithin limit source = .ok p) :
    p.Known :=
  (spells_of_parseWithin h).known

end Monkey
