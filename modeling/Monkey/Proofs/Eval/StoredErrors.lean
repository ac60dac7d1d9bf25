import Monkey.Parse.Grammar
import Monkey.Proofs.Eval.Watched

/-
  Errors are never stored.

  An error value goes the way of all values, from a part of a
  node to the node.  Yet it ends up nowhere: at no moment is one
  bound to a name, passed to a function, or inside an array, a
  hash, or a return mark.

  Main declarations:
    * `Value.ErrorFree`
    * `Machine.ErrorFree`
    * `errors_never_stored`
-/

namespace Monkey

------------------------------------------------------------
-- Without Errors
------------------------------------------------------------

/- A value that is no error and has none inside. -/
def Value.ErrorFree (v : Value) : Prop :=
  v.Within fun x => x.isError = false

/- No value that is bound in any scope is an error or has one
   inside. -/
def Machine.ErrorFree (m : Machine) : Prop :=
  ∀ id, ∀ entry ∈ m.bindings id, entry.2.ErrorFree

/-
  At a moment nothing bound or passed is an error or has one
  inside, and what is given has none inside, but may be one.
-/
structure Sight.ErrorFree (sight : Sight) : Prop where
  machine : sight.machine.ErrorFree
  passed : ∀ v ∈ sight.passed, v.ErrorFree
  given : ∀ v ∈ sight.given, v.isError = true ∨ v.ErrorFree

/- Errors are made in no other way than by going wrong. -/
theorem Value.allows_not_isError :
    Allows (fun v => v.isError = false) (fun _ => True)
      fun _ => True where
  int _ := rfl
  bool _ := rfl
  null := rfl
  str _ := rfl
  builtin _ := rfl
  array _ _ := rfl
  hash _ _ := rfl
  function _ _ _ _ :=
    ⟨fun _ => ⟨trivial, trivial⟩, fun _ => rfl⟩

theorem Machine.ErrorFree.holds
    {m : Machine}
    (h : m.ErrorFree) :
    m.Holds (fun v => v.isError = false) fun _ => True where
  values id _ := h id
  outer _ _ _ _ _ _ := trivial
  fresh _ _ := trivial

------------------------------------------------------------
-- Evaluation
------------------------------------------------------------

variable [Platform]

/- At no moment of an evaluation is an error stored, if none was
   before. -/
theorem errorFree_of_mem_sights
    {depth : Nat}
    {node : Node}
    {scope : ScopeId}
    {m : Machine}
    (hClean : m.ErrorFree)
    {sight : Sight}
    (hMem : sight ∈ Eval.sights depth node scope m) :
    sight.ErrorFree := by
  have hKept :=
    Eval.sights_kept_of_allows Value.allows_not_isError
      (fun _ _ => rfl) depth node trivial hClean.holds sight
      hMem
  exact
    { machine := fun id => hKept.machine.values id trivial
      passed := hKept.passed
      given := hKept.storable fun _ _ => rfl }

/-
  Evaluation of any node in any scope, where no error is bound
  anywhere or inside something bound: at no moment is an error
  bound, passed to a function, or inside a value, however the
  evaluation ends.  Its result may be an error, but has none
  inside.
-/
theorem errors_never_stored
    (depth : Nat)
    (node : Node)
    (scope : ScopeId)
    (m : Machine)
    (hClean : m.ErrorFree) :
    (∀ sight ∈ Eval.sights depth node scope m,
      sight.ErrorFree) ∧
    match Eval.evaluateWithin depth node scope m with
    | .ok v after =>
        after.ErrorFree ∧ (v.isError = true ∨ v.ErrorFree)
    | .error _ after => after.ErrorFree := by
  have hFinal :=
    errorFree_of_mem_sights hClean
      (Eval.final_mem_sights depth node scope m)
  refine
    ⟨fun _ hMem => errorFree_of_mem_sights hClean hMem, ?_⟩
  cases hResult : Eval.evaluateWithin depth node scope m with
  | ok v after =>
      rw [hResult] at hFinal
      exact ⟨hFinal.machine, hFinal.given v rfl⟩
  | error f after =>
      rw [hResult] at hFinal
      exact hFinal.machine

/- An error is meant for a function that puts what it gets into
   an array. -/
omit [Platform] in
theorem errors_never_stored_argument :
    letI := Platform.usual
    ∃ p v after,
      parseWithin 20 "let f = fn(x) \x7b [x] \x7d; f(-true)" =
          .ok p ∧
        Machine.new.ErrorFree ∧
        Eval.evaluateWithin 20 p Machine.root .new =
          .ok v after ∧
        v.isError = true ∧
        after.ErrorFree := by
  let := Platform.usual
  obtain ⟨p, hParse⟩ :
      ∃ p,
        parseWithin 20 "let f = fn(x) \x7b [x] \x7d; f(-true)" =
          .ok p :=
    ⟨_, rfl⟩
  obtain ⟨v, after, hEval, hError⟩ :
      ∃ v after,
        Eval.evaluateWithin 20 p Machine.root .new =
            .ok v after ∧
          v.isError = true := by
    cases hParse
    exact ⟨_, _, rfl, rfl⟩
  have hClean : Machine.new.ErrorFree :=
    fun id => Machine.holds_new.values id trivial
  have hStored :=
    (errors_never_stored 20 p Machine.root .new hClean).2
  rw [hEval] at hStored
  exact ⟨p, v, after, hParse, hClean, hEval, hError, hStored.1⟩

end Monkey
