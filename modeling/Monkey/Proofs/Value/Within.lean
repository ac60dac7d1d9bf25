import Monkey.Eval.Operator

/-
  What is inside a value.

  Arrays, hashes, and return marks hold other values.  `Within`
  says that a property holds of a value and of everything
  inside it.  Operators and indexing keep such a property, since
  they make numbers, booleans, and texts, or take an element.

  Main declarations:
    * `Value.Contains`
    * `Value.Within`
    * `Value.within_applyIndex`
-/

namespace Monkey

namespace Value

------------------------------------------------------------
-- Inside a Value
------------------------------------------------------------

/- One value is another one or is inside it. -/
inductive Contains : Value → Value → Prop
  | self (v : Value) : Contains v v
  | returned
      {id : Identity}
      {v x : Value}
      (hInside : Contains v x) :
      Contains (.returned id v) x
  | element
      {id : Identity}
      {elements : List Value}
      {v x : Value}
      (hElement : v ∈ elements)
      (hInside : Contains v x) :
      Contains (.array id elements) x
  | key
      {id : Identity}
      {entries : List (HashKey × HashPair Value)}
      {entry : HashKey × HashPair Value}
      {x : Value}
      (hEntry : entry ∈ entries)
      (hInside : Contains entry.2.key x) :
      Contains (.hash id entries) x
  | value
      {id : Identity}
      {entries : List (HashKey × HashPair Value)}
      {entry : HashKey × HashPair Value}
      {x : Value}
      (hEntry : entry ∈ entries)
      (hInside : Contains entry.2.value x) :
      Contains (.hash id entries) x

/- What is inside something inside a value is inside it. -/
theorem Contains.trans
    {v w x : Value}
    (hOuter : v.Contains w)
    (hInner : w.Contains x) :
    v.Contains x := by
  induction hOuter with
  | self => exact hInner
  | returned _ ih => exact .returned (ih hInner)
  | element hElement _ ih => exact .element hElement (ih hInner)
  | key hEntry _ ih => exact .key hEntry (ih hInner)
  | value hEntry _ ih => exact .value hEntry (ih hInner)

/- A property holds of a value and everything inside it. -/
def Within (ok : Value → Prop) (v : Value) : Prop :=
  ∀ x, v.Contains x → ok x

/- Values with nothing inside. -/
def IsFlat : Value → Prop
  | returned _ _ => False
  | array _ _ => False
  | hash _ _ => False
  | _ => True

variable {ok : Value → Prop}

theorem Within.self
    {v : Value}
    (h : v.Within ok) :
    ok v :=
  h v (.self v)

theorem Within.mono
    {p q : Value → Prop}
    {v : Value}
    (h : v.Within p)
    (hWeaker : ∀ x, p x → q x) :
    v.Within q :=
  fun x hInside => hWeaker x (h x hInside)

theorem IsFlat.within
    {v : Value}
    (hFlat : v.IsFlat)
    (h : ok v) :
    v.Within ok := by
  intro x hInside
  cases hInside with
  | self => exact h
  | _ => exact hFlat.elim

theorem within_returned
    {id : Identity}
    {v : Value} :
    (returned id v).Within ok ↔
      ok (returned id v) ∧ v.Within ok := by
  constructor
  · intro h
    exact ⟨h.self, fun x hInside => h x (.returned hInside)⟩
  · rintro ⟨hSelf, hValue⟩ x hInside
    cases hInside with
    | self => exact hSelf
    | returned hInside => exact hValue x hInside

theorem within_array
    {id : Identity}
    {elements : List Value} :
    (array id elements).Within ok ↔
      ok (array id elements) ∧
        ∀ v ∈ elements, v.Within ok := by
  constructor
  · intro h
    exact ⟨h.self, fun v hElement x hInside =>
      h x (.element hElement hInside)⟩
  · rintro ⟨hSelf, hElements⟩ x hInside
    cases hInside with
    | self => exact hSelf
    | element hElement hInside =>
        exact hElements _ hElement x hInside

theorem within_hash
    {id : Identity}
    {entries : List (HashKey × HashPair Value)} :
    (hash id entries).Within ok ↔
      ok (hash id entries) ∧
        ∀ entry ∈ entries,
          entry.2.key.Within ok ∧ entry.2.value.Within ok := by
  constructor
  · intro h
    refine ⟨h.self, fun entry hEntry => ⟨?_, ?_⟩⟩
    · exact fun x hInside => h x (.key hEntry hInside)
    · exact fun x hInside => h x (.value hEntry hInside)
  · rintro ⟨hSelf, hEntries⟩ x hInside
    cases hInside with
    | self => exact hSelf
    | key hEntry hInside =>
        exact (hEntries _ hEntry).1 x hInside
    | value hEntry hInside =>
        exact (hEntries _ hEntry).2 x hInside

end Value

------------------------------------------------------------
-- Tables
------------------------------------------------------------

namespace Table

variable {κ ν : Type} [DecidableEq κ]

/- A table holds an inserted pair and what it held before. -/
theorem mem_insert
    {key : κ}
    {value : ν}
    {table : Table κ ν}
    {entry : κ × ν}
    (h : entry ∈ insert key value table) :
    entry = (key, value) ∨ entry ∈ table := by
  induction table with
  | nil => exact .inl (List.mem_singleton.mp h)
  | cons first rest ih =>
      unfold insert at h
      split at h
      · rcases List.mem_cons.mp h with rfl | hRest
        · exact .inl rfl
        · exact .inr (List.mem_cons_of_mem _ hRest)
      · rcases List.mem_cons.mp h with rfl | hRest
        · exact .inr (List.mem_cons_self ..)
        · rcases ih hRest with hNew | hOld
          · exact .inl hNew
          · exact .inr (List.mem_cons_of_mem _ hOld)

theorem mem_of_find?
    {key : κ}
    {value : ν}
    {table : Table κ ν}
    (h : find? key table = some value) :
    (key, value) ∈ table := by
  induction table with
  | nil => simp [find?] at h
  | cons first rest ih =>
      unfold find? at h
      split at h
      · next hKey =>
          rcases first with ⟨k, v⟩
          cases hKey
          cases h
          exact List.mem_cons_self ..
      · exact List.mem_cons_of_mem _ (ih h)

variable {κ' μ : Type} [DecidableEq κ']
variable {f : κ → κ'}
variable (hKeys : Function.Injective f)
variable (g : ν → μ)
variable (key : κ)

include hKeys

/- Looking a key up commutes with a change of all values and, if
   different keys stay different, of all keys. -/
theorem find?_mapBoth
    (table : Table κ ν) :
    find? (f key) (table.map fun e => (f e.1, g e.2)) =
      (find? key table).map g := by
  induction table with
  | nil => rfl
  | cons e rest ih =>
      simp only [List.map_cons, find?, hKeys.eq_iff]
      split
      · rfl
      · exact ih

/- Writing a value commutes with such a change. -/
theorem insert_mapBoth
    (value : ν)
    (table : Table κ ν) :
    insert (f key) (g value)
        (table.map fun e => (f e.1, g e.2)) =
      (insert key value table).map fun e =>
        (f e.1, g e.2) := by
  induction table with
  | nil => rfl
  | cons e rest ih =>
      simp only [List.map_cons, insert, hKeys.eq_iff]
      split
      · rfl
      · rw [ih]
        rfl

end Table

------------------------------------------------------------
-- Operators
------------------------------------------------------------

namespace Value

/-
  What a property has to hold of for evaluation to keep it, if
  functions may refer to the scopes in `inside` and have the
  bodies in `code`: everything that is made apart from errors
  and return marks.
-/
structure Allows
    (ok : Value → Prop)
    (inside : ScopeId → Prop)
    (code : Node → Prop) : Prop where
  int : ∀ n, ok (.int n)
  bool : ∀ b, ok (.bool b)
  null : ok .null
  str : ∀ s, ok (.str s)
  builtin : ∀ b, ok (.builtin b)
  array : ∀ id elements, ok (.array id elements)
  hash : ∀ id entries, ok (.hash id entries)
  function :
    ∀ id params body scope,
      ok (.function id params body scope) ↔
        inside scope ∧ code body

variable {ok : Value → Prop}
variable {inside : ScopeId → Prop}
variable {code : Node → Prop}
variable (hOk : Allows ok inside code)

include hOk

theorem within_null : Within ok null :=
  IsFlat.within trivial hOk.null

theorem within_applyPrefix
    {operator : String}
    {right v : Value}
    (h : right.applyPrefix operator = .ok v) :
    v.Within ok := by
  unfold applyPrefix at h
  split at h
  · cases h
    exact IsFlat.within trivial (hOk.bool _)
  · split at h
    · cases h
      exact IsFlat.within trivial (hOk.int _)
    · cases h
  · cases h

theorem within_applyInteger
    {operator : String}
    {a b : Int}
    {v : Value}
    (h : applyInteger operator a b = .ok v) :
    v.Within ok := by
  have hInt : ∀ n, Within ok (int n) :=
    fun n => IsFlat.within trivial (hOk.int n)
  have hBool : ∀ b, Within ok (bool b) :=
    fun b => IsFlat.within trivial (hOk.bool b)
  unfold applyInteger at h
  split at h
  case h_4 =>
    split at h
    · cases h
    · cases h
      exact hInt _
  case h_9 => cases h
  all_goals
    cases h
    first
    | exact hInt _
    | exact hBool _

theorem within_applyInfix
    {operator : String}
    {left right v : Value}
    (h : left.applyInfix operator right = .ok v) :
    v.Within ok := by
  unfold applyInfix at h
  split at h
  · exact within_applyInteger hOk h
  · unfold applyText at h
    split at h
    · cases h
      exact IsFlat.within trivial (hOk.str _)
    · cases h
  · unfold applyObject at h
    split at h
    · cases h
      exact IsFlat.within trivial (hOk.bool _)
    · cases h
      exact IsFlat.within trivial (hOk.bool _)
    · split at h <;> cases h

theorem within_elementAt
    {elements : List Value}
    (i : Int)
    (hElements : ∀ v ∈ elements, v.Within ok) :
    (elementAt elements i).Within ok := by
  unfold elementAt
  split
  · exact within_null hOk
  · cases hElement : elements[i.toNat]? with
    | none => exact within_null hOk
    | some v =>
        exact hElements v (List.mem_of_getElem? hElement)

theorem within_entryAt
    {entries : Table HashKey (HashPair Value)}
    (key : HashKey)
    (hEntries :
      ∀ entry ∈ entries, entry.2.value.Within ok) :
    (entryAt entries key).Within ok := by
  unfold entryAt
  split
  · next pair hPair =>
      exact hEntries _ (Table.mem_of_find? hPair)
  · exact within_null hOk

/- What is indexed gives something that was inside, or null. -/
theorem within_applyIndex
    [Platform]
    {left subscript v : Value}
    (hLeft : left.Within ok)
    (h : left.applyIndex subscript = .ok (.ok v)) :
    v.Within ok := by
  unfold applyIndex at h
  split at h
  · cases h
    exact within_elementAt hOk _ (within_array.mp hLeft).2
  · split at h
    next made _ =>
      cases made with
      | error f => cases h
      | ok key =>
          cases h
          refine within_entryAt hOk _ fun entry hEntry => ?_
          exact ((within_hash.mp hLeft).2 entry hEntry).2
    next => cases h
  · cases h

end Value

end Monkey
