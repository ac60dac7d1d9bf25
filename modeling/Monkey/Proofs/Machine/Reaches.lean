import Monkey.Proofs.Machine.Keeps

/-
  What can be reached from a scope.

  Evaluation in a scope comes to the scopes around it, to those
  that functions in bindings refer to, and to scopes it makes
  itself.  What holds of everything bound in the former holds in
  all scopes that matter.

  Main declarations:
    * `Machine.Reaches`
    * `Machine.holds_of_reaches`
    * `Machine.Holds.inside_of_reaches`
-/

namespace Monkey

namespace Machine

------------------------------------------------------------
-- Reachable Scopes
------------------------------------------------------------

/-
  The scopes that can be reached from a scope: by going
  outwards, and through the functions in the values that are
  bound.
-/
inductive Reaches
    (m : Machine)
    (start : ScopeId) :
    ScopeId → Prop
  | start : Reaches m start start
  | outer
      {id outer : ScopeId}
      {scope : Scope}
      (hReaches : Reaches m start id)
      (hScope : m.scopes[id]? = some scope)
      (hOuter : scope.outer = some outer) :
      Reaches m start outer
  | captured
      {id outer : ScopeId}
      {entry : String × Value}
      {fn : Identity}
      {params : List Identifier}
      {body : Node}
      (hReaches : Reaches m start id)
      (hEntry : entry ∈ m.bindings id)
      (hInside :
        entry.2.Contains (.function fn params body outer)) :
      Reaches m start outer

/- The scopes that can be reached and those still to be
   made. -/
def Region
    (m : Machine)
    (start : ScopeId)
    (id : ScopeId) : Prop :=
  m.Reaches start id ∨ m.scopes.size ≤ id

end Machine

------------------------------------------------------------
-- Functions of a Region
------------------------------------------------------------

namespace Value

/- A property of values that also asks functions to refer to
   scopes of a set. -/
def Confined
    (inside : ScopeId → Prop)
    (p : Value → Prop)
    (v : Value) : Prop :=
  p v ∧
    ∀ id params body scope,
      v = .function id params body scope → inside scope

/- Evaluation keeps functions confined. -/
theorem Allows.confined
    {p : Value → Prop}
    {code : Node → Prop}
    (h : Allows p (fun _ => True) code)
    (inside : ScopeId → Prop) :
    Allows (Confined inside p) inside code where
  int n := ⟨h.int n, nofun⟩
  bool b := ⟨h.bool b, nofun⟩
  null := ⟨h.null, nofun⟩
  str s := ⟨h.str s, nofun⟩
  builtin b := ⟨h.builtin b, nofun⟩
  array id elements := ⟨h.array id elements, nofun⟩
  hash id entries := ⟨h.hash id entries, nofun⟩
  function id params body scope := by
    constructor
    · rintro ⟨hValue, hConfined⟩
      exact ⟨hConfined _ _ _ _ rfl, ((h.function ..).mp hValue).2⟩
    · rintro ⟨hInside, hCode⟩
      refine ⟨(h.function ..).mpr ⟨trivial, hCode⟩, ?_⟩
      rintro _ _ _ _ ⟨⟩
      exact hInside

end Value

------------------------------------------------------------
-- Regions
------------------------------------------------------------

namespace Machine

theorem bindings_of_size_le
    {m : Machine}
    {id : ScopeId}
    (hSize : m.scopes.size ≤ id) :
    m.bindings id = [] := by
  unfold bindings
  rw [Array.getElem?_eq_none hSize]

/- What holds of everything that can be reached holds in all
   scopes that evaluation can come to. -/
theorem holds_of_reaches
    {m : Machine}
    {start : ScopeId}
    {p : Value → Prop}
    (h :
      ∀ id, m.Reaches start id →
        ∀ entry ∈ m.bindings id, entry.2.Within p) :
    m.Holds (Value.Confined (m.Region start) p)
      (m.Region start) := by
  refine ⟨?_, ?_, fun id hSize => .inr hSize⟩
  · intro id hId entry hEntry x hInside
    rcases hId with hReaches | hSize
    · refine ⟨h id hReaches entry hEntry x hInside, ?_⟩
      rintro fn params body scope rfl
      exact .inl (.captured hReaches hEntry hInside)
    · simp [bindings_of_size_le hSize] at hEntry
  · intro id scope outer hId hScope hOuter
    rcases hId with hReaches | hSize
    · exact .inl (.outer hReaches hScope hOuter)
    · rw [Array.getElem?_eq_none hSize] at hScope
      cases hScope

/- Where functions are confined to a set of scopes, no other
   scope can be reached from it. -/
theorem Holds.inside_of_reaches
    {m : Machine}
    {inside : ScopeId → Prop}
    {p : Value → Prop}
    {start id : ScopeId}
    (h : m.Holds (Value.Confined inside p) inside)
    (hStart : inside start)
    (hReaches : m.Reaches start id) :
    inside id := by
  induction hReaches with
  | start => exact hStart
  | outer _ hScope hOuter ih =>
      exact h.outer _ _ _ ih hScope hOuter
  | captured _ hEntry hInside ih =>
      exact (h.values _ ih _ hEntry _ hInside).2 _ _ _ _ rfl

end Machine

end Monkey
