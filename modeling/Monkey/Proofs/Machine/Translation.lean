import Monkey.Machine.Basic
import Monkey.Proofs.Value.Translation

/-
  Scopes in other words.

  The scopes of a machine can be translated, and put behind other
  scopes.  Names mean then what they meant before, in other
  words, and binding a name or making a scope comes to the same
  before and after.

  Looking names up takes as many steps as the position of a scope
  allows.  Where all outer scopes are earlier ones, more steps
  make no difference.

  Main declarations:
    * `Scope.translate`
    * `Scopes.behind`
    * `Scopes.lookupWithin_behind`
    * `Scopes.Ordered`
-/

namespace Monkey

------------------------------------------------------------
-- Changing One Element of an Array
------------------------------------------------------------

section

variable {α β : Type}
variable (f : α → α)
variable (xs : Array α)
variable (i : Nat)

/- To change an element first comes to changing its image. -/
theorem map_modify
    {g : α → β}
    {f' : β → β}
    (h : ∀ a, g (f a) = f' (g a)) :
    (xs.modify i f).map g = (xs.map g).modify i f' := by
  refine Array.ext_getElem? fun j => ?_
  rw [Array.getElem?_map, Array.getElem?_modify,
    Array.getElem?_modify, Array.getElem?_map]
  split
  · cases xs[j]? with
    | none => rfl
    | some a => exact congrArg some (h a)
  · rfl

/- To change the last element comes to adding its image. -/
theorem modify_push
    (a : α) :
    (xs.push a).modify xs.size f = xs.push (f a) := by
  refine Array.ext_getElem? fun j => ?_
  rw [Array.getElem?_modify, Array.getElem?_push,
    Array.getElem?_push]
  by_cases hLast : xs.size = j
  · rw [if_pos hLast, if_pos hLast.symm, if_pos hLast.symm]
    rfl
  · rw [if_neg hLast, if_neg (Ne.symm hLast),
      if_neg (Ne.symm hLast)]

/- Elements keep their places among those behind others. -/
theorem append_modify
    (base : Array α) :
    (base ++ xs).modify (base.size + i) f =
      base ++ xs.modify i f := by
  refine Array.ext_getElem? fun j => ?_
  rw [Array.getElem?_modify, Array.getElem?_append,
    Array.getElem?_append, Array.getElem?_modify]
  split
  · next hHere =>
      have hBehind : ¬ j < base.size := by omega
      rw [if_neg hBehind, if_neg hBehind, if_pos (by omega)]
  · next hElsewhere =>
      split
      · rfl
      · rw [if_neg (by omega)]

end

------------------------------------------------------------
-- One Scope
------------------------------------------------------------

/- A scope in other words. -/
def Scope.translate
    (t : Translation)
    (scope : Scope) :
    Scope where
  outer := scope.outer.map t.scope
  bindings :=
    scope.bindings.map fun e => (t.name e.1, e.2.translate t)

theorem Scope.translate_define
    {t : Translation}
    (hNames : Function.Injective t.name)
    (scope : Scope)
    (name : String)
    (v : Value) :
    (scope.define name v).translate t =
      (scope.translate t).define (t.name name)
        (v.translate t) := by
  unfold define translate
  rw [Table.insert_mapBoth hNames]

namespace Scopes

------------------------------------------------------------
-- Scopes Behind Others
------------------------------------------------------------

/- Scopes in other words, behind other scopes. -/
def behind
    (t : Translation)
    (base scopes : Scopes) :
    Scopes :=
  base ++ scopes.map (Scope.translate t)

section

variable (t : Translation)
variable (base scopes : Scopes)

theorem getElem?_behind
    (id : ScopeId) :
    (behind t base scopes)[base.size + id]? =
      scopes[id]?.map (Scope.translate t) := by
  unfold behind
  rw [Array.getElem?_append_right (Nat.le_add_right ..),
    Nat.add_sub_cancel_left, Array.getElem?_map]

theorem push_behind
    (outer : Option ScopeId) :
    (behind t base scopes).push (.empty (outer.map t.scope)) =
      behind t base (scopes.push (.empty outer)) := by
  unfold behind
  rw [Array.map_push, Array.push_append]
  rfl

theorem size_behind :
    (behind t base scopes).size = base.size + scopes.size := by
  unfold behind
  rw [Array.size_append, Array.size_map]

variable {t}
variable (hNames : Function.Injective t.name)

include hNames

theorem modify_behind
    (id : ScopeId)
    (name : String)
    (v : Value) :
    (behind t base scopes).modify (base.size + id)
        (·.define (t.name name) (v.translate t)) =
      behind t base
        (scopes.modify id (·.define name v)) := by
  unfold behind
  rw [append_modify, ← map_modify]
  exact fun scope => scope.translate_define hNames name v

variable (hScopes : ∀ id, t.scope id = base.size + id)

include hScopes

/- Names mean what they meant, in other words. -/
theorem lookupWithin_behind
    (name : String)
    (steps : Nat)
    (id : ScopeId) :
    (behind t base scopes).lookupWithin (t.name name) steps
        (base.size + id) =
      (scopes.lookupWithin name steps id).map
        (Value.translate t) := by
  induction steps generalizing id with
  | zero => rfl
  | succ steps ih =>
      unfold lookupWithin Scope.find?
      rw [getElem?_behind]
      cases scopes[id]? with
      | none => rfl
      | some scope =>
          simp only [Option.map_some, Scope.translate,
            Table.find?_mapBoth hNames]
          cases scope.bindings.find? name with
          | some v => rfl
          | none =>
              cases scope.outer with
              | none => rfl
              | some outer =>
                  simp only [Option.map_some, Option.map_none,
                    hScopes]
                  exact ih outer

end

------------------------------------------------------------
-- Scopes in Order
------------------------------------------------------------

/- All outer scopes are earlier ones. -/
def Ordered (scopes : Scopes) : Prop :=
  ∀ (id : ScopeId) (scope : Scope) (outer : ScopeId),
    scopes[id]? = some scope →
      scope.outer = some outer → outer < id

/- One scope with nothing around it is in order. -/
theorem ordered_root
    (bindings : Table String Value) :
    Ordered #[⟨none, bindings⟩] := by
  intro id scope outer hScope hOuter
  cases id with
  | zero =>
      cases hScope
      cases hOuter
  | succ id => cases hScope

variable {scopes : Scopes}

/- The steps that the position of a scope allows are enough. -/
theorem Ordered.lookupWithin_eq
    (h : scopes.Ordered)
    (name : String)
    {steps : Nat}
    {id : ScopeId}
    (hEnough : id < steps) :
    scopes.lookupWithin name steps id =
      scopes.lookup id name := by
  unfold lookup
  induction id using Nat.strongRecOn generalizing steps with
  | _ id ih =>
      cases steps with
      | zero => exact absurd hEnough (Nat.not_lt_zero id)
      | succ steps =>
          unfold lookupWithin
          cases hScope : scopes[id]? with
          | none => rfl
          | some scope =>
              cases hFound : scope.find? name with
              | some v => simp only [hFound]
              | none =>
                  cases hOuter : scope.outer with
                  | none => simp only [hFound, hOuter]
                  | some outer =>
                      have hLess :=
                        h id scope outer hScope hOuter
                      have hStill : outer < steps :=
                        Nat.lt_of_lt_of_le hLess
                          (Nat.le_of_lt_succ hEnough)
                      simp only [hFound, hOuter]
                      rw [ih outer hLess hStill,
                        ih outer hLess hLess]

/- A name is looked up in a scope itself and then in the one
   around it. -/
theorem Ordered.lookup_eq
    (h : scopes.Ordered)
    {id : ScopeId}
    {scope : Scope}
    (hScope : scopes[id]? = some scope)
    (name : String) :
    scopes.lookup id name =
      (scope.find? name).or
        (scope.outer.bind (scopes.lookup · name)) := by
  rw [lookup, lookupWithin, hScope]
  cases hFound : scope.find? name with
  | some v => simp only [hFound, Option.some_or]
  | none =>
      cases hOuter : scope.outer with
      | none => simp only [hFound, hOuter]; rfl
      | some outer =>
          simp only [hFound, hOuter]
          exact h.lookupWithin_eq name
            (h id scope outer hScope hOuter)

/- What a name means depends on no later scopes. -/
theorem Ordered.lookup_congr
    (h : scopes.Ordered)
    {scopes' : Scopes}
    {count : Nat}
    (hSame : ∀ id < count, scopes'[id]? = scopes[id]?)
    {id : ScopeId}
    (hId : id < count)
    (name : String) :
    scopes'.lookup id name = scopes.lookup id name := by
  unfold lookup
  generalize id + 1 = steps
  induction steps generalizing id with
  | zero => rfl
  | succ steps ih =>
      unfold lookupWithin
      rw [hSame id hId]
      cases hScope : scopes[id]? with
      | none => rfl
      | some scope =>
          cases hFound : scope.find? name with
          | some v => simp only [hFound]
          | none =>
              cases hOuter : scope.outer with
              | none => simp only [hFound, hOuter]
              | some outer =>
                  have hLess := h id scope outer hScope hOuter
                  simp only [hFound, hOuter]
                  exact ih (Nat.lt_trans hLess hId)

/- A scope inside of an earlier one comes next. -/
theorem Ordered.push
    (h : scopes.Ordered)
    {scope : Scope}
    (hOuter :
      ∀ outer, scope.outer = some outer →
        outer < scopes.size) :
    Ordered (scopes.push scope) := by
  intro id scope' outer hScope hEq
  rw [Array.getElem?_push] at hScope
  split at hScope
  · next hLast =>
      cases hScope
      rw [hLast]
      exact hOuter outer hEq
  · exact h id scope' outer hScope hEq

theorem Ordered.modify
    (h : scopes.Ordered)
    (id : ScopeId)
    (name : String)
    (v : Value) :
    Ordered (scopes.modify id (·.define name v)) := by
  intro id' scope outer hScope hEq
  rw [Array.getElem?_modify] at hScope
  cases hBefore : scopes[id']? with
  | none => simp [hBefore] at hScope
  | some before =>
      refine h id' before outer hBefore ?_
      simp only [hBefore, Option.map_some] at hScope
      split at hScope <;> cases hScope <;> exact hEq

end Scopes

end Monkey
