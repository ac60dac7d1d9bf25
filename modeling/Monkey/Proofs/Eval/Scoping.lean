import Mathlib.Logic.Relation
import Monkey.Proofs.Eval.Canonical
import Monkey.Proofs.Eval.Moments
import Monkey.Proofs.Eval.Moving

/-
  Where scopes lead.

  A function bound in a scope may refer to that scope, so that
  scopes and functions lead back to where they came from.  Outer
  scopes do not: they are always earlier ones.  This lasts only
  if a function refers to a scope that is already there, because
  a call puts a new scope inside of that one.  Both are kept at
  every moment of all evaluations, so a walk outwards ends, with
  no limit on its steps.

  Main declarations:
    * `Scopes.Encloses`
    * `Scopes.Finds`
    * `Sight.Arises`
    * `Sight.WellScoped`
    * `scopes_well_founded`
-/

namespace Monkey

------------------------------------------------------------
-- Walks Outwards
------------------------------------------------------------

namespace Scopes

/- A scope is directly around another one. -/
def Encloses
    (scopes : Scopes)
    (outer id : ScopeId) : Prop :=
  ∃ scope, scopes[id]? = some scope ∧ scope.outer = some outer

/- What a walk outwards comes to, if it ends: the nearest value
   of a name, or none in all scopes around. -/
inductive Finds
    (scopes : Scopes)
    (name : String) :
    ScopeId → Option Value → Prop
  | here
      {id : ScopeId}
      {scope : Scope}
      {v : Value}
      (hScope : scopes[id]? = some scope)
      (hFound : scope.find? name = some v) :
      Finds scopes name id (some v)
  | nowhere
      {id : ScopeId}
      {scope : Scope}
      (hScope : scopes[id]? = some scope)
      (hNone : scope.find? name = none)
      (hOuter : scope.outer = none) :
      Finds scopes name id none
  | outward
      {id outer : ScopeId}
      {scope : Scope}
      {found : Option Value}
      (hScope : scopes[id]? = some scope)
      (hNone : scope.find? name = none)
      (hOuter : scope.outer = some outer)
      (hMore : Finds scopes name outer found) :
      Finds scopes name id found

variable {scopes : Scopes}

/- Where all outer scopes are earlier ones, no way outwards leads
   back. -/
theorem Ordered.acyclic
    (h : scopes.Ordered)
    (id : ScopeId) :
    ¬ Relation.TransGen scopes.Encloses id id := by
  have hEarlier :
      ∀ {a b}, Relation.TransGen scopes.Encloses a b → a < b := by
    intro a b hWay
    induction hWay with
    | single hStep =>
        rcases hStep with ⟨scope, hScope, hOuter⟩
        exact h _ scope _ hScope hOuter
    | tail _ hStep ih =>
        rcases hStep with ⟨scope, hScope, hOuter⟩
        exact Nat.lt_trans ih (h _ scope _ hScope hOuter)
  exact fun hBack => Nat.lt_irrefl id (hEarlier hBack)

/- A walk outwards ends, with what is looked up. -/
theorem Ordered.finds_lookup
    (h : scopes.Ordered)
    (name : String)
    {id : ScopeId}
    (hId : id < scopes.size) :
    scopes.Finds name id (scopes.lookup id name) := by
  induction id using Nat.strongRecOn with
  | _ id ih =>
      have hScope := Array.getElem?_eq_getElem hId
      rw [h.lookup_eq hScope]
      cases hFound : scopes[id].find? name with
      | some v => exact .here hScope hFound
      | none =>
          cases hOuter : scopes[id].outer with
          | none => exact .nowhere hScope hFound hOuter
          | some outer =>
              have hLess := h id _ outer hScope hOuter
              exact .outward hScope hFound hOuter
                (ih outer hLess (Nat.lt_trans hLess hId))

/- What a walk comes to is what is looked up. -/
theorem Ordered.lookup_of_finds
    (h : scopes.Ordered)
    {name : String}
    {id : ScopeId}
    {found : Option Value}
    (hFinds : scopes.Finds name id found) :
    scopes.lookup id name = found := by
  induction hFinds with
  | here hScope hFound =>
      rw [h.lookup_eq hScope, hFound]
      rfl
  | nowhere hScope hNone hOuter =>
      rw [h.lookup_eq hScope, hNone, hOuter]
      rfl
  | outward hScope hNone hOuter _ ih =>
      rw [h.lookup_eq hScope, hNone, hOuter]
      exact ih

theorem Ordered.finds_iff
    (h : scopes.Ordered)
    (name : String)
    {id : ScopeId}
    (hId : id < scopes.size)
    (found : Option Value) :
    scopes.Finds name id found ↔
      found = scopes.lookup id name := by
  constructor
  · exact fun hFinds => (h.lookup_of_finds hFinds).symm
  · rintro rfl
    exact h.finds_lookup name hId

end Scopes

------------------------------------------------------------
-- Moments of Programs
------------------------------------------------------------

/-
  The moments that a new machine comes to while nodes are
  evaluated, one after the other, in scopes that are there.  An
  evaluation can be cut off at any moment, and another one begins
  with the machine as it is then.
-/
inductive Sight.Arises [Platform] : Sight → Prop
  | new : Arises (.between .new)
  | next
      {before sight : Sight}
      {depth : Nat}
      {node : Node}
      {scope : ScopeId}
      (hBefore : Arises before)
      (hScope : scope < before.machine.scopes.size)
      (hMem :
        sight ∈ Eval.sights depth node scope before.machine) :
      Arises sight

/-
  Scopes, which are numbered in the order in which they are made,
  and functions, wherever they are to be seen, lead to earlier
  scopes and to scopes that are there.
-/
structure Sight.WellScoped (sight : Sight) : Prop where
  root : Machine.root < sight.machine.scopes.size
  earlier :
    ∀ outer id, sight.machine.scopes.Encloses outer id →
      outer < id
  captured :
    ∀ fn params body outer,
      sight.Shows (fun _ => True)
          (.function fn params body outer) →
        outer < sight.machine.scopes.size
  acyclic :
    ∀ id, ¬ Relation.TransGen sight.machine.scopes.Encloses id id
  reached :
    ∀ start id, start < sight.machine.scopes.size →
      sight.machine.Reaches start id →
        id < sight.machine.scopes.size
  found :
    ∀ id name found, id < sight.machine.scopes.size →
      (sight.machine.scopes.Finds name id found ↔
        found = sight.machine.scopes.lookup id name)

------------------------------------------------------------
-- The Invariant
------------------------------------------------------------

/-
  What is said of evaluations with another scope in front: outer
  scopes are earlier ones, and functions refer to scopes that are
  there.  What it says of the text printed does not matter here.
-/
def scoping : Likeness Nat :=
  moving (.behind #[.empty none] 0) False

/- Another scope is in front. -/
theorem scoping_inside
    {count : Nat}
    {id : ScopeId} :
    (Move.behind #[Scope.empty none] 0).Inside count id ↔
      id < count :=
  ⟨fun h => h Nat.one_pos, fun h _ => h⟩

variable {sight : Sight}

/- All moments have the invariant, at some number of scopes. -/
theorem Sight.Arises.stands
    [Platform]
    (h : sight.Arises) :
    ∃ count, 1 ≤ count ∧ sight.Stands scoping count := by
  induction h with
  | new =>
      exact ⟨1, Nat.le_refl 1, Sight.between_stands
        ⟨Move.behind_fits_new .., "", rfl, nofun⟩⟩
  | next _ hScope hMem ih =>
      rcases ih with ⟨count, hCount, hStands⟩
      rcases hStands.machine with ⟨m', hFits, hMoved⟩
      have hInside := scoping_inside.mpr (hFits.size ▸ hScope)
      rcases (moving_respected _ False).sights_stand
          (moving_prints nofun) _ rfl ⟨hInside, rfl⟩
          ⟨hFits, hMoved⟩ _ hMem with
        ⟨later, hLater, hThen⟩
      exact ⟨later, Nat.le_trans hCount hLater, hThen⟩

namespace Sight.Stands

variable {count : Nat}
variable (h : sight.Stands scoping count)

include h

theorem fits :
    (Move.behind #[Scope.empty none] 0).Fits count
      sight.machine := by
  rcases h.machine with ⟨m', hFits, -⟩
  exact hFits

theorem ordered : sight.machine.scopes.Ordered :=
  h.fits.ordered Nat.one_pos

/- A function that there is to see refers to a scope that is
   there. -/
theorem lt_of_shows
    {fn : Identity}
    {params : List Identifier}
    {body : Node}
    {outer : ScopeId}
    (hShows :
      sight.Shows (fun _ => True)
        (.function fn params body outer)) :
    outer < sight.machine.scopes.size := by
  have hFunction :
      ∀ w : Value,
        w.Within (Value.RefersTo
          ((Move.behind #[Scope.empty none] 0).Inside count)) →
          w.Contains (.function fn params body outer) →
            outer < sight.machine.scopes.size := by
    intro w hWithin hIn
    rw [h.fits.size]
    exact scoping_inside.mp (hWithin _ hIn _ _ _ _ rfl)
  rcases hShows with ⟨id, -, entry, hEntry, hIn⟩ |
    ⟨w, hGiven, hIn⟩ | ⟨w, hPassed, hIn⟩
  · exact hFunction _
      (h.fits.bound.values id trivial entry hEntry) hIn
  · rcases h.given w hGiven with ⟨_, hWithin, -⟩
    exact hFunction w hWithin hIn
  · rcases h.passed w hPassed with ⟨_, hWithin, -⟩
    exact hFunction w hWithin hIn

/- Whatever can be reached from a scope that is there is there,
   too. -/
theorem lt_of_reaches
    {start id : ScopeId}
    (hStart : start < sight.machine.scopes.size)
    (hReaches : sight.machine.Reaches start id) :
    id < sight.machine.scopes.size := by
  induction hReaches with
  | start => exact hStart
  | outer _ hScope hOuter ih =>
      exact Nat.lt_trans (h.ordered _ _ _ hScope hOuter) ih
  | @captured id _ entry _ _ _ _ hEntry hInside =>
      exact h.lt_of_shows
        (.inl ⟨id, trivial, entry, hEntry, hInside⟩)

theorem wellScoped
    (hCount : 1 ≤ count) :
    sight.WellScoped where
  root := h.fits.size ▸ hCount
  earlier := by
    rintro outer id ⟨scope, hScope, hOuter⟩
    exact h.ordered id scope outer hScope hOuter
  captured _ _ _ _ := h.lt_of_shows
  acyclic := h.ordered.acyclic
  reached _ _ := h.lt_of_reaches
  found _ name found hId := h.ordered.finds_iff name hId found

end Sight.Stands

------------------------------------------------------------
-- All Moments
------------------------------------------------------------

variable [Platform]

/-
  At every moment that programs come to, also those that end in
  errors or are cut off, each outer scope is earlier than those
  inside of it, and each function refers to a scope that is
  there.  So no way outwards leads back, all scopes that can be
  reached are there, and looking a name up ends from each of them.
-/
theorem scopes_well_founded
    (sight : Sight)
    (hArises : sight.Arises) :
    sight.WellScoped := by
  rcases hArises.stands with ⟨count, hCount, hStands⟩
  exact hStands.wellScoped hCount

/- A function bound in the scope that it refers to gives another
   one that refers to the scope of a call. -/
omit [Platform] in
theorem scopes_well_founded_recursive :
    letI := Platform.usual
    ∃ p fn params body gn inner m,
      parseWithin 20
          "let f = fn(x) \x7b fn() \x7b f \x7d \x7d; f(1)" =
        .ok p ∧
      m.scopes.lookup Machine.root "f" =
        some (.function fn params body Machine.root) ∧
      Sight.Arises
        ⟨m, some (.function gn [] inner 1), []⟩ ∧
      Sight.WellScoped
        ⟨m, some (.function gn [] inner 1), []⟩ := by
  let := Platform.usual
  obtain ⟨p, hParse⟩ :
      ∃ p,
        parseWithin 20
            "let f = fn(x) \x7b fn() \x7b f \x7d \x7d; f(1)" =
          .ok p :=
    ⟨_, rfl⟩
  obtain ⟨fn, params, body, gn, inner, m, hEval, hBound⟩ :
      ∃ fn params body gn inner m,
        Eval.evaluateWithin 20 p Machine.root .new =
            .ok (.function gn [] inner 1) m ∧
          m.scopes.lookup Machine.root "f" =
            some (.function fn params body Machine.root) := by
    cases hParse
    exact ⟨_, _, _, _, _, _, rfl, rfl⟩
  have hLast := Eval.final_mem_sights 20 p Machine.root .new
  rw [hEval] at hLast
  have hArises := Sight.Arises.next .new Nat.one_pos hLast
  exact ⟨p, fn, params, body, gn, inner, m, hParse, hBound,
    hArises, scopes_well_founded _ hArises⟩

end Monkey
