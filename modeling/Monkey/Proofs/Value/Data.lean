import Monkey.Value.HashKey
import Monkey.Value.Inspect

/-
  Data: integers, booleans, and arrays and hashes of them.

  The identities of objects do not show in their written form.
  `Value.bare` leaves them out, so that values that are built
  alike have the same bare value.  `Value.IsData` says of which
  values the written form is meant to be read again, and within
  how many levels of nesting.

  Main declarations:
    * `Value.bare`
    * `Value.inspect_bare`
    * `Value.IsData`
-/

namespace Monkey

/- An integer that can be written has its decimal form. -/
theorem inspectInteger_of_some
    {n : Int}
    {text : String}
    (h : writeInteger? n = some text) :
    inspectInteger n = .ok text := by
  unfold inspectInteger
  rw [h]

namespace Value

------------------------------------------------------------
-- Values Without Identities
------------------------------------------------------------

mutual

/- A value without the identities of its objects.  Booleans and
   nulls of their own are like the common ones. -/
def bare : Value → Value
  | int n => int n
  | bool b => bool b
  | null => null
  | str s => str s
  | returned _ v => returned 0 (bare v)
  | error _ message => error 0 message
  | function _ params body scope =>
      function 0 params body scope
  | builtin b => builtin b
  | array _ elements => array 0 (bareList elements)
  | hash _ entries => hash 0 (bareEntries entries)
  | hostBool _ b => bool b
  | hostNull _ => null
  | hostObject _ => hostObject 0

/- A list of values without identities. -/
def bareList : List Value → List Value
  | [] => []
  | v :: rest => bare v :: bareList rest

/- The entries of a hash without identities. -/
def bareEntries :
    List (HashKey × HashPair Value) →
      List (HashKey × HashPair Value)
  | [] => []
  | (k, ⟨key, value⟩) :: rest =>
      (k, ⟨bare key, bare value⟩) :: bareEntries rest

end

/- An entry of a hash without identities. -/
def bareEntry
    (entry : HashKey × HashPair Value) :
    HashKey × HashPair Value :=
  (entry.1, ⟨entry.2.key.bare, entry.2.value.bare⟩)

theorem bareList_eq_map
    (vs : List Value) :
    bareList vs = vs.map bare := by
  induction vs with
  | nil => rfl
  | cons v rest ih => simp [bareList, ih]

theorem bareEntries_eq_map
    (entries : List (HashKey × HashPair Value)) :
    bareEntries entries = entries.map bareEntry := by
  induction entries with
  | nil => rfl
  | cons entry rest ih => simp [bareEntries, bareEntry, ih]

/- The written form of a value does not show identities. -/
theorem inspect_bare
    (depth : Nat)
    (v : Value) :
    v.bare.inspect depth = v.inspect depth := by
  induction depth generalizing v with
  | zero => rfl
  | succ depth ih =>
      cases v with
      | returned id inner =>
          rw [bare, inspect, inspect]
          exact ih inner
      | array id elements =>
          rw [bare, inspect, inspect, bareList_eq_map,
            List.mapM_map]
          simp only [Function.comp_def, ih]
      | hash id entries =>
          rw [bare, inspect, inspect, bareEntries_eq_map,
            List.mapM_map]
          simp only [Function.comp_def, bareEntry, ih]
      | _ => simp [bare, inspect]

theorem hashKey?_bare
    [Platform]
    (v : Value) :
    v.bare.hashKey? = v.hashKey? := by
  cases v <;> simp [bare, hashKey?]

/- Values that are built alike have the same written form. -/
theorem inspect_eq_of_bare
    {v w : Value}
    (h : v.bare = w.bare)
    (depth : Nat) :
    v.inspect depth = w.inspect depth := by
  rw [← inspect_bare, h, inspect_bare]

------------------------------------------------------------
-- Data
------------------------------------------------------------

variable [Platform]

/-
  Whether a value consists of integers, booleans, arrays, and
  hashes whose keys are integers or booleans, nested within a
  number of levels.  A negative integer takes a level more than
  others, since it is written with a sign, and no integer is
  longer than may be written.
-/
def IsData : Nat → Value → Prop
  | 0, _ => False
  | levels + 1, v =>
      match v with
      | int n =>
          n.natAbs < Nat.pow 10 digitLimit ∧
            (n < 0 → 0 < levels)
      | bool _ => True
      | hostBool _ _ => True
      | array _ elements => ∀ e ∈ elements, IsData levels e
      | hash _ entries =>
          (entries.map Prod.fst).Nodup ∧
            ∀ entry ∈ entries,
              entry.2.key.hashKey? = some (.ok entry.1) ∧
                IsData levels entry.2.key ∧
                IsData levels entry.2.value
      | _ => False

end Value

end Monkey
