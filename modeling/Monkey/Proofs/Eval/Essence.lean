import Monkey.Proofs.Eval.Likeness
import Monkey.Proofs.Machine.Translation
import Monkey.Proofs.Syntax.Essence

/-
  Places do not matter to evaluation.

  The essence of a value, and of a machine, has the essences of
  all function bodies in the place of these.  Evaluation takes the
  essence of a node on the essence of a machine to that of
  what it gives otherwise.

  Main declarations:
    * `Value.essence`
    * `Value.inspect_essence`
    * `Machine.essence`
    * `essential_closed`
-/

namespace Monkey

------------------------------------------------------------
-- Values
------------------------------------------------------------

namespace Value

mutual

/- A value with the essences of all functions inside. -/
def essence : Value → Value
  | returned id v => .returned id (essence v)
  | function id params body scope =>
      .function id (params.map Identifier.bare) body.essence
        scope
  | array id elements => .array id (essenceList elements)
  | hash id entries => .hash id (essenceEntries entries)
  | int n => .int n
  | bool b => .bool b
  | null => .null
  | str s => .str s
  | error id message => .error id message
  | builtin b => .builtin b
  | hostBool id b => .hostBool id b
  | hostNull id => .hostNull id
  | hostObject id => .hostObject id

/- The essences of a list of values. -/
def essenceList : List Value → List Value
  | [] => []
  | v :: rest => essence v :: essenceList rest

/- The essences of the entries of a hash. -/
def essenceEntries :
    List (HashKey × HashPair Value) →
      List (HashKey × HashPair Value)
  | [] => []
  | (k, ⟨key, value⟩) :: rest =>
      (k, ⟨essence key, essence value⟩) :: essenceEntries rest

end

/- The essences of the parts of an entry. -/
def essenceEntry
    (e : HashKey × HashPair Value) :
    HashKey × HashPair Value :=
  (e.1, ⟨e.2.key.essence, e.2.value.essence⟩)

theorem essenceList_eq_map
    (vs : List Value) :
    essenceList vs = vs.map essence := by
  induction vs with
  | nil => rfl
  | cons v rest ih => simp [essenceList, ih]

theorem essenceEntries_eq_map
    (es : List (HashKey × HashPair Value)) :
    essenceEntries es = es.map essenceEntry := by
  induction es with
  | nil => rfl
  | cons e rest ih => simp [essenceEntries, essenceEntry, ih]

theorem IsPlain.essence_eq
    {v : Value}
    (h : v.IsPlain) :
    v.essence = v := by
  cases v with
  | returned | error | function | array | hash => exact h.elim
  | _ => rfl

/- The essence of a value has its identity. -/
theorem same_essence
    (v w : Value) :
    v.essence.same w.essence = v.same w := by
  cases v <;> cases w <;> simp only [essence, same]

/- Functions with the same names and body have the same written
   form. -/
theorem inspectFunction_bare
    (params : List Identifier)
    (body : String) :
    inspectFunction (params.map Identifier.bare) body =
      inspectFunction params body := by
  unfold inspectFunction Node.renderParams
  rw [List.map_map]
  rfl

/- Values of the same essence have the same written form. -/
theorem inspect_essence
    (depth : Nat)
    (v : Value) :
    v.essence.inspect depth = v.inspect depth := by
  induction depth generalizing v with
  | zero => rfl
  | succ depth ih =>
      cases v with
      | returned id v => simpa [essence, inspect] using ih v
      | function id params body scope =>
          simp only [essence, inspect,
            Node.renderWithin_essence, inspectFunction_bare]
      | array id elements =>
          simp [essence, inspect, essenceList_eq_map,
            List.mapM_map, ih, Function.comp_def]
      | hash id entries =>
          simp [essence, inspect, essenceEntries_eq_map,
            List.mapM_map, ih, essenceEntry, Function.comp_def]
      | _ => simp [essence, inspect]

end Value

------------------------------------------------------------
-- Machines
------------------------------------------------------------

namespace Table

variable {κ ν μ : Type}
variable [DecidableEq κ]

/- Looking a key up commutes with a change of all values. -/
theorem find?_map
    (f : ν → μ)
    (key : κ)
    (table : Table κ ν) :
    find? key (table.map fun e => (e.1, f e.2)) =
      (find? key table).map f :=
  find?_mapBoth Function.injective_id f key table

/- Writing a value commutes with a change of all values. -/
theorem insert_map
    (f : ν → μ)
    (key : κ)
    (value : ν)
    (table : Table κ ν) :
    insert key (f value) (table.map fun e => (e.1, f e.2)) =
      (insert key value table).map fun e => (e.1, f e.2) :=
  insert_mapBoth Function.injective_id f key value table

end Table

/- A scope with the essences of the values bound in it. -/
def Scope.essence (scope : Scope) : Scope :=
  { scope with
    bindings :=
      scope.bindings.map fun e => (e.1, e.2.essence) }

theorem Scope.define_essence
    (scope : Scope)
    (name : String)
    (v : Value) :
    (scope.define name v).essence =
      scope.essence.define name v.essence := by
  unfold define essence
  rw [Table.insert_map]

namespace Machine

/- A machine with the essences of all values bound in it. -/
def essence (m : Machine) : Machine :=
  { m with scopes := m.scopes.map Scope.essence }

variable (m : Machine)

theorem lookupWithin_essence
    (name : String)
    (steps : Nat)
    (id : ScopeId) :
    m.essence.scopes.lookupWithin name steps id =
      (m.scopes.lookupWithin name steps id).map
        Value.essence := by
  induction steps generalizing id with
  | zero => rfl
  | succ steps ih =>
      unfold Scopes.lookupWithin essence Scope.find?
      rw [Array.getElem?_map]
      cases m.scopes[id]? with
      | none => rfl
      | some scope =>
          simp only [Option.map_some, Scope.essence,
            Table.find?_map]
          cases scope.bindings.find? name with
          | some v => rfl
          | none =>
              cases scope.outer with
              | none => rfl
              | some outer => exact ih outer

theorem define_essence
    (id : ScopeId)
    (name : String)
    (v : Value) :
    essence
        { m with
          scopes := m.scopes.modify id (·.define name v) } =
      { m.essence with
        scopes :=
          m.essence.scopes.modify id
            (·.define name v.essence) } := by
  have hScopes :
      (m.scopes.modify id (·.define name v)).map
          Scope.essence =
        (m.scopes.map Scope.essence).modify id
          (·.define name v.essence) :=
    map_modify _ _ _ fun scope => scope.define_essence name v
  unfold essence
  rw [hScopes]

theorem newScope_essence
    (outer : Option ScopeId) :
    essence
        { m with scopes := m.scopes.push (.empty outer) } =
      { m.essence with
        scopes := m.essence.scopes.push (.empty outer) } := by
  unfold essence
  rw [Array.map_push]
  rfl

/- The names bound in a scope are those bound in the essence,
   each to the essence of its value. -/
theorem bindings_essence
    (id : ScopeId) :
    m.essence.bindings id =
      (m.bindings id).map fun e => (e.1, e.2.essence) := by
  unfold bindings essence
  rw [Array.getElem?_map]
  cases m.scopes[id]? <;> rfl

end Machine

------------------------------------------------------------
-- Evaluations
------------------------------------------------------------

variable [Platform]

/- A node has the same form with other tokens. -/
omit [Platform] in
theorem Node.matches_mapTokens
    (f g : Token → Token)
    (n : Node) :
    Node.Matches
      (fun id id' => id' = { id with token := g id.token })
      (fun n n' => n' = n.mapTokens f g) n
      (n.mapTokens f g) := by
  simp only [mapTokens_eq_mapNames]
  exact n.matches_mapNames _ f g

/- The only stage there is: what the essence of a value is never
   changes. -/
inductive Timeless where
  | always

instance : Preorder Timeless where
  le _ _ := True
  le_refl _ := trivial
  le_trans _ _ _ _ _ := trivial

/- An evaluation, and one of the essence on the essence. -/
def essential : Likeness Timeless where
  names id id' := id' = id.bare
  nodes n n' := n' = n.essence
  values _ v v' := v' = v.essence
  scopes _ := Eq
  outers _ := Eq
  machines _ m m' := m' = m.essence
  messages _ := Eq

omit [Platform] in
theorem essential_matches
    (w : Timeless)
    (v : Value) :
    essential.Matches w v v.essence := by
  cases v with
  | returned => exact .returned _ _ rfl
  | error => exact .error _ _ rfl
  | function =>
      exact .function _ _ (forall₂_image.mpr rfl) rfl rfl
  | array =>
      unfold Value.essence
      rw [Value.essenceList_eq_map]
      exact .array _ _ (forall₂_image.mpr rfl)
  | hash =>
      unfold Value.essence
      rw [Value.essenceEntries_eq_map]
      refine .hash _ _ ?_
      rw [List.forall₂_map_right_iff]
      exact List.forall₂_same.mpr fun _ _ => ⟨rfl, rfl, rfl⟩
  | _ => exact .plain trivial

/- A value of the same form and identity as another one, with
   essences in it, is its essence. -/
omit [Platform] in
theorem essential_of_matches
    {w : Timeless}
    {v v' : Value}
    (h : essential.Matches w v v')
    (hId : v.identity? = v'.identity?) :
    v' = v.essence := by
  cases h with
  | plain hPlain => exact hPlain.essence_eq.symm
  | returned id id' hValue =>
      cases hId
      cases hValue
      rfl
  | error _ _ hMessage =>
      cases hId
      cases hMessage
      rfl
  | function id id' hParams hBody hOuter =>
      cases hId
      cases hBody
      cases hOuter
      cases forall₂_image.mp hParams
      rfl
  | array id id' hElements =>
      cases hId
      cases forall₂_image.mp hElements
      rw [Value.essence, Value.essenceList_eq_map]
  | hash id id' hEntries =>
      cases hId
      have hImages :
          List.Forall₂ (fun e e' => e' = Value.essenceEntry e)
            _ _ :=
        hEntries.imp fun e e' ⟨hKey, hFirst, hSecond⟩ => by
          rcases e' with ⟨k', ⟨a', b'⟩⟩
          cases hKey
          cases hFirst
          cases hSecond
          rfl
      cases forall₂_image.mp hImages
      rw [Value.essence, Value.essenceEntries_eq_map]

omit [Platform] in
theorem essential_closed : essential.Closed where
  values_mono := fun _ h => h
  scopes_mono := fun _ h => h
  captures := fun h => h
  names_eq := by
    rintro id _ rfl
    rfl
  nodes_match := by
    rintro n _ rfl
    exact n.matches_mapTokens Token.unplaced fun _ => .blank
  values_match := by
    rintro w v _ rfl
    exact essential_matches w v
  same_eq := by
    rintro w v _ u _ rfl rfl
    exact (v.same_essence u).symm
  inspect_eq := by
    rintro w v _ rfl depth
    exact (v.inspect_essence depth).symm
  plain := fun hNone =>
    (Value.isPlain_of_identity? hNone).essence_eq.symm
  messages_refl := fun _ _ => rfl
  make := by
    rintro w form form' hMatch w₁ - m _ rfl
    refine ⟨w₁, le_refl w₁, rfl,
      essential_of_matches
        (hMatch m.nextIdentity m.nextIdentity) ?_⟩
    rw [form.identity?_object]
    exact (form'.identity?_object _).symm
  newScope := by
    rintro w s _ rfl w₁ - m _ rfl
    refine ⟨w₁, le_refl w₁, (m.newScope_essence _).symm, ?_⟩
    exact Array.size_map.symm
  define := by
    rintro w s _ v _ name rfl rfl w₁ - m _ rfl
    exact ⟨w₁, le_refl w₁, (m.define_essence s name v).symm,
      trivial⟩
  lookup := by
    rintro w s _ name rfl w₁ - m _ rfl
    refine ⟨w₁, le_refl w₁, rfl, ?_⟩
    unfold Scopes.lookup
    rw [m.lookupWithin_essence]
    cases m.scopes.lookupWithin name (s + 1) s with
    | none => exact .none
    | some v => exact .some rfl
  printLine := by
    rintro w text w₁ - m _ rfl
    exact ⟨w₁, le_refl w₁, rfl, trivial⟩

------------------------------------------------------------
-- Results
------------------------------------------------------------

/- The essence of a result, or of a failure, on a machine. -/
def resultEssence :
    EStateM.Result Failure Machine Value →
      EStateM.Result Failure Machine Value
  | .ok v m => .ok v.essence m.essence
  | .error f m => .error f m.essence

/- The essence of a node gives on the essence of a machine the
   essence of what the node gives. -/
theorem evaluateWithin_essence
    (depth : Nat)
    (n : Node)
    (scope : ScopeId)
    (m : Machine) :
    Eval.evaluateWithin depth n.essence scope m.essence =
      resultEssence (Eval.evaluateWithin depth n scope m) := by
  have hLands :
      essential.Lands .always essential.values
        (Eval.evaluateWithin depth n scope m)
        (Eval.evaluateWithin depth n.essence scope
          m.essence) :=
    essential_closed.evaluateWithin depth .always n n.essence
      scope scope rfl rfl .always (le_refl _) m m.essence rfl
  revert hLands
  cases Eval.evaluateWithin depth n scope m with
  | ok v after =>
      cases Eval.evaluateWithin depth n.essence scope
          m.essence with
      | ok v' after' =>
          rintro ⟨_, -, rfl, rfl⟩
          rfl
      | error => exact False.elim
  | error f after =>
      cases Eval.evaluateWithin depth n.essence scope
          m.essence with
      | ok => exact False.elim
      | error f' after' =>
          rintro ⟨rfl, _, -, rfl⟩
          rfl

/- Nodes of the same essence give results of the same
   essence. -/
theorem resultEssence_evaluateWithin
    {n n' : Node}
    (h : n.essence = n'.essence)
    (depth : Nat)
    (scope : ScopeId)
    (m : Machine) :
    resultEssence (Eval.evaluateWithin depth n scope m) =
      resultEssence (Eval.evaluateWithin depth n' scope m) := by
  rw [← evaluateWithin_essence, h, evaluateWithin_essence]

end Monkey
