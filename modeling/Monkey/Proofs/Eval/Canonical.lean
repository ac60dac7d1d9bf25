import Monkey.Parse.Grammar
import Monkey.Proofs.Eval.Watched
import Monkey.Proofs.Machine.Reaches

/-
  Booleans and null stay canonical.

  Operators compare booleans and null as objects, and conditions
  ask for the very objects `false` and `null`.  So they depend on
  there being no other ones.  Evaluation makes none: if there is
  none in reach when it begins, it never comes to one, and what
  it compares as objects it compares by value.

  Main declarations:
    * `Value.IsCanonical`
    * `Sight.Shows`
    * `Value.ComparesByContent`
    * `evaluation_canonical`
-/

namespace Monkey

------------------------------------------------------------
-- Booleans and Nulls
------------------------------------------------------------

namespace Value

/- Any value but a boolean or a null of its own. -/
def IsCanonical : Value → Prop
  | hostBool _ _ => False
  | hostNull _ => False
  | _ => True

/- The truth of a boolean, common or not. -/
def truth? : Value → Option Bool
  | bool b => some b
  | hostBool _ b => some b
  | _ => none

/- A null, common or not.  The object without any form is none,
   although it has that type. -/
def IsNull : Value → Prop
  | null => True
  | hostNull _ => True
  | _ => False

/- Evaluation makes common booleans and nulls only. -/
theorem allows_isCanonical :
    Allows IsCanonical (fun _ => True) fun _ => True where
  int _ := trivial
  bool _ := trivial
  null := trivial
  str _ := trivial
  builtin _ := trivial
  array _ _ := trivial
  hash _ _ := trivial
  function _ _ _ _ :=
    ⟨fun _ => ⟨trivial, trivial⟩, fun _ => trivial⟩

/-
  Two values that are both booleans or both nulls are equal for
  programs exactly if they are the same truth or nulls.
-/
structure ComparesByContent (v w : Value) : Prop where
  booleans :
    ∀ a b, v.truth? = some a → w.truth? = some b →
      v.applyInfix "==" w = .ok (.bool (a == b)) ∧
        v.applyInfix "!=" w = .ok (.bool (a != b))
  nulls :
    v.IsNull → w.IsNull →
      v.applyInfix "==" w = .ok (.bool true) ∧
        v.applyInfix "!=" w = .ok (.bool false)

variable {v w : Value}

theorem IsCanonical.truth
    (h : v.IsCanonical)
    {b : Bool}
    (hTruth : v.truth? = some b) :
    v = .bool b := by
  cases v with
  | bool _ =>
      cases hTruth
      rfl
  | hostBool _ _ => exact h.elim
  | _ => cases hTruth

theorem IsCanonical.eq_null
    (h : v.IsCanonical)
    (hNull : v.IsNull) :
    v = .null := by
  cases v with
  | null => rfl
  | hostNull _ => exact h.elim
  | _ => exact hNull.elim

/- Canonical booleans and nulls are one object if they are
   equal. -/
theorem IsCanonical.comparesByContent
    (hLeft : v.IsCanonical)
    (hRight : w.IsCanonical) :
    v.ComparesByContent w where
  booleans a b hA hB := by
    rw [hLeft.truth hA, hRight.truth hB]
    exact ⟨rfl, rfl⟩
  nulls hA hB := by
    rw [hLeft.eq_null hA, hRight.eq_null hB]
    exact ⟨rfl, rfl⟩

/- Only a canonical value that is false or null counts as no. -/
theorem IsCanonical.isTruthy_eq_false_iff
    (h : v.IsCanonical) :
    v.isTruthy = false ↔ v.truth? = some false ∨ v.IsNull := by
  cases v with
  | bool b => cases b <;> simp [isTruthy, truth?, IsNull]
  | hostBool _ _ => exact h.elim
  | hostNull _ => exact h.elim
  | _ => simp [isTruthy, truth?, IsNull]

end Value

------------------------------------------------------------
-- What Is in Reach
------------------------------------------------------------

variable [Platform]

/-
  A value is there to see at a moment: bound in a scope of a set,
  given, passed, or inside such a value.
-/
def Sight.Shows
    (inside : ScopeId → Prop)
    (sight : Sight)
    (v : Value) : Prop :=
  (∃ id, inside id ∧
    ∃ entry ∈ sight.machine.bindings id,
      entry.2.Contains v) ∨
  (∃ w ∈ sight.given, w.Contains v) ∨
  ∃ w ∈ sight.passed, w.Contains v

/-
  A value is there to see at some moment of an evaluation, in the
  scopes that can be reached when it begins, in those it makes,
  or on the way.
-/
def Eval.Sees
    (depth : Nat)
    (node : Node)
    (scope : ScopeId)
    (m : Machine)
    (v : Value) : Prop :=
  ∃ sight ∈ sights depth node scope m,
    sight.Shows (m.Region scope) v

/- Everything bound in the scopes that can be reached from a
   scope is canonical. -/
def Machine.CanonicalFrom
    (m : Machine)
    (scope : ScopeId) : Prop :=
  ∀ id, m.Reaches scope id →
    ∀ entry ∈ m.bindings id, entry.2.Within Value.IsCanonical

/-
  At every moment of an evaluation everything stored is canonical
  and refers to scopes in reach, if it was so before.
-/
theorem Machine.CanonicalFrom.sights_kept
    {m : Machine}
    {scope : ScopeId}
    (h : m.CanonicalFrom scope)
    (depth : Nat)
    (node : Node) :
    ∀ sight ∈ Eval.sights depth node scope m,
      sight.Kept
        (Logged.regimeOf
          (Value.Confined (m.Region scope) Value.IsCanonical)
          (m.Region scope)) :=
  Eval.sights_kept_of_allows
    (Value.allows_isCanonical.confined _)
    (fun _ _ => ⟨trivial, nofun⟩) depth node (.inl .start)
    (holds_of_reaches h)

/- An error is canonical, and so is everything that is
   stored. -/
omit [Platform] in
theorem Value.Storable.confined
    {inside : ScopeId → Prop}
    {w v : Value}
    (h : w.Storable (Confined inside IsCanonical))
    (hInside : w.Contains v) :
    v.Confined inside IsCanonical := by
  rcases h with hError | hWithin
  · cases w with
    | error id message =>
        cases hInside
        exact ⟨trivial, nofun⟩
    | _ => cases hError
  · exact hWithin v hInside

/- Everything there is to see is canonical and refers to scopes
   in reach. -/
theorem Eval.Sees.confined
    {depth : Nat}
    {node : Node}
    {scope : ScopeId}
    {m : Machine}
    {v : Value}
    (h : Sees depth node scope m v)
    (hCanonical : m.CanonicalFrom scope) :
    v.Confined (m.Region scope) Value.IsCanonical := by
  rcases h with ⟨sight, hMem, hShows⟩
  have hKept :=
    hCanonical.sights_kept depth node sight hMem
  rcases hShows with ⟨id, hInside, entry, hEntry, hIn⟩ |
    ⟨w, hGiven, hIn⟩ | ⟨w, hPassed, hIn⟩
  · exact hKept.machine.values id hInside entry hEntry v hIn
  · exact (hKept.storable (fun _ _ => ⟨trivial, nofun⟩) w
      hGiven).confined hIn
  · exact hKept.passed w hPassed v hIn

/- What can be reached at a moment is among the scopes that could
   be reached before and those made since. -/
theorem Machine.CanonicalFrom.region_of_reaches
    {depth : Nat}
    {node : Node}
    {scope id : ScopeId}
    {m : Machine}
    {sight : Sight}
    (h : m.CanonicalFrom scope)
    (hMem : sight ∈ Eval.sights depth node scope m)
    (hReaches : sight.machine.Reaches scope id) :
    m.Region scope id :=
  (h.sights_kept depth node sight
    hMem).machine.inside_of_reaches (.inl .start) hReaches

/- The machine of each moment has only canonical values in
   reach. -/
theorem Machine.CanonicalFrom.sight
    {depth : Nat}
    {node : Node}
    {scope : ScopeId}
    {m : Machine}
    {sight : Sight}
    (h : m.CanonicalFrom scope)
    (hMem : sight ∈ Eval.sights depth node scope m) :
    sight.machine.CanonicalFrom scope := by
  intro id hReaches entry hEntry x hInside
  have hSees : Eval.Sees depth node scope m x :=
    ⟨sight, hMem, .inl
      ⟨id, h.region_of_reaches hMem hReaches, entry, hEntry,
        hInside⟩⟩
  exact (hSees.confined h).1

------------------------------------------------------------
-- Evaluation
------------------------------------------------------------

/-
  Evaluation of a node in a scope from which only canonical values
  can be reached.  All values that there are to see at any moment
  are canonical, booleans and nulls among them are compared by
  what they are, and only false and null count as no.  Scopes and
  functions in sight lead to no other scopes than those looked
  at.  Whatever the evaluation ends in, only canonical values can
  be reached afterwards.
-/
theorem evaluation_canonical
    (depth : Nat)
    (node : Node)
    (scope : ScopeId)
    (m : Machine)
    (hCanonical : m.CanonicalFrom scope) :
    (∀ v, Eval.Sees depth node scope m v → v.IsCanonical) ∧
    (∀ v w,
      Eval.Sees depth node scope m v →
        Eval.Sees depth node scope m w →
          v.ComparesByContent w) ∧
    (∀ v, Eval.Sees depth node scope m v →
      (v.isTruthy = false ↔
        v.truth? = some false ∨ v.IsNull)) ∧
    (∀ sight ∈ Eval.sights depth node scope m, ∀ id,
      sight.machine.Reaches scope id → m.Region scope id) ∧
    (∀ id params body outer,
      Eval.Sees depth node scope m
          (.function id params body outer) →
        m.Region scope outer) ∧
    match Eval.evaluateWithin depth node scope m with
    | .ok v after =>
        v.Within Value.IsCanonical ∧ after.CanonicalFrom scope
    | .error _ after => after.CanonicalFrom scope := by
  have hSeen :
      ∀ v, Eval.Sees depth node scope m v → v.IsCanonical :=
    fun _ hSees => (hSees.confined hCanonical).1
  have hLast := Eval.final_mem_sights depth node scope m
  have hAfter := hCanonical.sight hLast
  refine ⟨hSeen, ?_, ?_, ?_, ?_, ?_⟩
  · exact fun v w hLeft hRight =>
      (hSeen v hLeft).comparesByContent (hSeen w hRight)
  · exact fun v hSees => (hSeen v hSees).isTruthy_eq_false_iff
  · exact fun sight hMem id hReaches =>
      hCanonical.region_of_reaches hMem hReaches
  · exact fun id params body outer hSees =>
      (hSees.confined hCanonical).2 id params body outer rfl
  · cases hResult : Eval.evaluateWithin depth node scope m with
    | ok v after =>
        rw [hResult] at hLast hAfter
        refine ⟨fun x hInside => ?_, hAfter⟩
        exact hSeen x
          ⟨_, hLast, .inr (.inl ⟨v, rfl, hInside⟩)⟩
    | error f after =>
        rw [hResult] at hAfter
        exact hAfter

/- A bound boolean and a bound null are told apart. -/
omit [Platform] in
theorem evaluation_canonical_bound :
    letI := Platform.usual
    let bound := [("no", Value.bool false), ("nil", .null)]
    let m : Machine := ⟨#[⟨none, bound⟩], "", 0⟩
    ∃ p after,
      parseWithin 20 "if (no == false) \x7b nil != no \x7d" =
          .ok p ∧
        m.CanonicalFrom Machine.root ∧
        Eval.evaluateWithin 20 p Machine.root m =
          .ok (.bool true) after ∧
        after.CanonicalFrom Machine.root := by
  let := Platform.usual
  intro bound m
  obtain ⟨p, hParse⟩ :
      ∃ p,
        parseWithin 20 "if (no == false) \x7b nil != no \x7d" =
          .ok p :=
    ⟨_, rfl⟩
  obtain ⟨after, hEval⟩ :
      ∃ after,
        Eval.evaluateWithin 20 p Machine.root m =
          .ok (.bool true) after := by
    cases hParse
    exact ⟨_, rfl⟩
  have hCanonical : m.CanonicalFrom Machine.root := by
    intro id _ entry hEntry
    cases id with
    | zero =>
        have hFlat :
            ∀ e ∈ bound, e.2.Within Value.IsCanonical := by
          simp only [bound, List.forall_mem_cons]
          exact ⟨Value.IsFlat.within trivial trivial,
            Value.IsFlat.within trivial trivial, nofun⟩
        exact hFlat entry hEntry
    | succ id => cases hEntry
  have hStays :=
    evaluation_canonical 20 p Machine.root m hCanonical
  rw [hEval] at hStays
  exact ⟨p, after, hParse, hCanonical, hEval,
    hStays.2.2.2.2.2.2⟩

end Monkey
