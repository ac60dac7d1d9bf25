import Monkey.Proofs.Eval.HashLookup
import Monkey.Proofs.Value.Data
import Mathlib.Data.List.Forall2

/-
  Evaluation of literals.

  An expression gives back a value if it evaluates to one that
  is built alike, in every scope and on every machine.  Literals
  of arrays and hashes give back what their parts do.

  Main declarations:
    * `Eval.GivesBack`
    * `Eval.GivesBack.array`
    * `Eval.GivesBack.hash`
-/

namespace Monkey

namespace Eval

variable {levels depth : Nat}

------------------------------------------------------------
-- Expressions
------------------------------------------------------------

variable [Platform]

/- An expression that evaluates to a value built like the given
   one, within a number of levels. -/
def GivesBack
    (levels : Nat)
    (e : Node)
    (v : Value) : Prop :=
  ∀ {depth : Nat} (scope : ScopeId) (m : Machine),
    levels ≤ depth →
      ∃ w after,
        evaluateWithin depth e scope m = .ok w after ∧
          w.bare = v.bare ∧
          w.isFinal = false

theorem GivesBack.mono
    {more : Nat}
    {e : Node}
    {v : Value}
    (h : GivesBack levels e v)
    (hLevels : levels ≤ more) :
    GivesBack more e v :=
  fun scope m hMore => h scope m (Nat.le_trans hLevels hMore)

omit [Platform] in
theorem isError_of_isFinal
    {v : Value}
    (h : v.isFinal = false) :
    v.isError = false := by
  cases v with
  | error => cases h
  | _ => rfl

omit [Platform] in
theorem unwrapReturned_of_isFinal
    {v : Value}
    (h : v.isFinal = false) :
    v.unwrapReturned = v := by
  cases v with
  | returned => cases h
  | _ => rfl

theorem GivesBack.integer
    (t : Token)
    (n : Nat) :
    GivesBack 1 (.integer t n) (.int n) := by
  intro depth scope m hLevels
  obtain ⟨depth, rfl⟩ : ∃ k, depth = k + 1 :=
    Nat.exists_eq_add_one.mpr hLevels
  exact ⟨.int n, m, rfl, rfl, rfl⟩

theorem GivesBack.negative
    (t u : Token)
    (n : Nat) :
    GivesBack 2 (.prefixOp t "-" (.integer u n)) (.int (-n)) := by
  intro depth scope m hLevels
  obtain ⟨depth, rfl⟩ : ∃ k, depth = k + 2 :=
    ⟨depth - 2, by omega⟩
  exact ⟨.int (-n), m, rfl, rfl, rfl⟩

theorem GivesBack.boolean
    {v : Value}
    (t : Token)
    (b : Bool)
    (hBare : v.bare = .bool b) :
    GivesBack 1 (.boolean t b) v := by
  intro depth scope m hLevels
  obtain ⟨depth, rfl⟩ : ∃ k, depth = k + 1 :=
    Nat.exists_eq_add_one.mpr hLevels
  exact ⟨.bool b, m, rfl, by rw [hBare]; rfl, rfl⟩

------------------------------------------------------------
-- Arrays
------------------------------------------------------------

/- Expressions give back values one after another. -/
theorem expressions_giveBack
    {es : List Node}
    {vs : List Value}
    (h : List.Forall₂ (GivesBack levels) es vs)
    (hLevels : levels ≤ depth)
    (scope : ScopeId)
    (m : Machine) :
    ∃ ws after,
      expressions (evaluateWithin depth) scope es m =
          .ok (.ok ws) after ∧
        ws.map Value.bare = vs.map Value.bare := by
  induction h generalizing m with
  | nil => exact ⟨[], m, rfl, rfl⟩
  | cons hFirst _ ih =>
      rcases hFirst scope m hLevels with
        ⟨w, mid, hRun, hBare, hGoesOn⟩
      rcases ih mid with ⟨ws, after, hOthers, hBares⟩
      refine ⟨w :: ws, after, ?_, by simp [hBare, hBares]⟩
      rw [expressions, bind_eq_of_ok hRun,
        isError_of_isFinal hGoesOn]
      simp only [Bool.false_eq_true, if_false]
      rw [bind_eq_of_ok hOthers]
      rfl

theorem GivesBack.array
    {es : List Node}
    {vs : List Value}
    (t : Token)
    (id : Identity)
    (h : List.Forall₂ (GivesBack levels) es vs) :
    GivesBack (levels + 1) (.array t es) (.array id vs) := by
  intro depth scope m hLevels
  obtain ⟨depth, rfl⟩ : ∃ k, depth = k + 1 :=
    ⟨depth - 1, by omega⟩
  rcases expressions_giveBack h (Nat.le_of_succ_le_succ hLevels)
      scope m with ⟨ws, after, hRun, hBares⟩
  have hArray :
      arrayLiteral (M := Eval) (evaluateWithin depth) scope es m =
        .ok (.array after.nextIdentity ws)
          { after with nextIdentity := after.nextIdentity + 1 } := by
    rw [arrayLiteral, bind_eq_of_ok hRun]
    rfl
  refine ⟨_, _, hArray, ?_, rfl⟩
  rw [Value.bare, Value.bare, Value.bareList_eq_map,
    Value.bareList_eq_map, hBares]

------------------------------------------------------------
-- Hashes
------------------------------------------------------------

/- A pair of expressions that gives back an entry of a hash. -/
def EntryGivesBack
    (levels : Nat)
    (p : Node × Node)
    (entry : HashKey × HashPair Value) : Prop :=
  entry.2.key.hashKey? = some (.ok entry.1) ∧
    GivesBack levels p.1 entry.2.key ∧
    GivesBack levels p.2 entry.2.value

/- Pairs give back entries with different keys one after
   another. -/
theorem hashPairs_giveBack
    {ps : List (Node × Node)}
    {entries : List (HashKey × HashPair Value)}
    (h : List.Forall₂ (EntryGivesBack levels) ps entries)
    (hLevels : levels ≤ depth)
    (scope : ScopeId)
    (table : Table HashKey (HashPair Value))
    (m : Machine)
    (hKeys : ((table ++ entries).map Prod.fst).Nodup) :
    ∃ entries' after,
      hashPairs (evaluateWithin depth) scope table ps m =
          .ok (.ok (table ++ entries')) after ∧
        entries'.map Value.bareEntry =
          entries.map Value.bareEntry := by
  induction h generalizing table m with
  | nil =>
      refine ⟨[], m, ?_, rfl⟩
      rw [List.append_nil]
      rfl
  | @cons p entry ps entries hFirst _ ih =>
      rcases hFirst with ⟨hKey, hKeyBack, hValueBack⟩
      rcases hKeyBack scope m hLevels with
        ⟨key, mid, hKeyRun, hKeyBare, hKeyGoesOn⟩
      rcases hValueBack scope mid hLevels with
        ⟨value, mid', hValueRun, hValueBare, hValueGoesOn⟩
      have hSameKey : key.hashKey? = some (.ok entry.1) := by
        rw [← Value.hashKey?_bare, hKeyBare,
          Value.hashKey?_bare, hKey]
      have hNew : entry.1 ∉ table.map Prod.fst := by
        rw [List.map_append, List.map_cons] at hKeys
        exact fun hMem =>
          (List.nodup_append.mp hKeys).2.2 _ hMem _
            List.mem_cons_self rfl
      have hInsert :
          table.insert entry.1 ⟨key, value⟩ =
            table ++ [(entry.1, ⟨key, value⟩)] :=
        Table.insert_of_not_mem hNew
      let table' : Table HashKey (HashPair Value) :=
        table ++ [(entry.1, ⟨key, value⟩)]
      have hKeys' :
          ((table' ++ entries).map Prod.fst).Nodup := by
        simpa [table'] using hKeys
      rcases ih table' mid' hKeys' with
        ⟨entries', after, hOthers, hBares⟩
      refine ⟨(entry.1, ⟨key, value⟩) :: entries', after, ?_, ?_⟩
      · rw [hashPairs, bind_eq_of_ok hKeyRun,
          isError_of_isFinal hKeyGoesOn]
        simp only [Bool.false_eq_true, if_false, hSameKey]
        rw [bind_eq_of_ok hValueRun,
          isError_of_isFinal hValueGoesOn]
        change
          hashPairs (evaluateWithin depth) scope
            (table.insert entry.1 ⟨key, value⟩) ps mid' = _
        rw [hInsert, hOthers]
        simp only [table', List.append_assoc,
          List.singleton_append]
      · rw [List.map_cons, List.map_cons, hBares]
        simp [Value.bareEntry, hKeyBare, hValueBare]

theorem GivesBack.hash
    {ps : List (Node × Node)}
    {entries : List (HashKey × HashPair Value)}
    (t : Token)
    (id : Identity)
    (h : List.Forall₂ (EntryGivesBack levels) ps entries)
    (hKeys : (entries.map Prod.fst).Nodup) :
    GivesBack (levels + 1) (.hash t ps) (.hash id entries) := by
  intro depth scope m hLevels
  obtain ⟨depth, rfl⟩ : ∃ k, depth = k + 1 :=
    ⟨depth - 1, by omega⟩
  rcases hashPairs_giveBack h (Nat.le_of_succ_le_succ hLevels)
      scope [] m hKeys with ⟨entries', after, hRun, hBares⟩
  have hHash :
      hashLiteral (M := Eval) (evaluateWithin depth) scope ps m =
        .ok (.hash after.nextIdentity entries')
          { after with nextIdentity := after.nextIdentity + 1 } := by
    rw [hashLiteral, bind_eq_of_ok hRun]
    rfl
  refine ⟨_, _, hHash, ?_, rfl⟩
  rw [Value.bare, Value.bare, Value.bareEntries_eq_map,
    Value.bareEntries_eq_map, hBares]

------------------------------------------------------------
-- Programs
------------------------------------------------------------

/- A single statement gives what a list of it does. -/
omit [Platform] in
theorem statements_single
    {eval : Node → ScopeId → Eval Value}
    {scope : ScopeId}
    {m m' : Machine}
    {s : Node}
    {v : Value}
    (h : eval s scope m = .ok v m')
    (last : Value) :
    statements (M := Eval) eval scope last [s] m =
      .ok v m' := by
  rw [statements, bind_eq_of_ok h]
  cases v.isFinal with
  | true => rfl
  | false => rfl

/- A program that is a single expression. -/
theorem GivesBack.program
    {e : Node}
    {v : Value}
    (first : Token)
    (h : GivesBack levels e v) :
    GivesBack (levels + 2) (.program [.exprStmt first e]) v := by
  intro depth scope m hLevels
  obtain ⟨depth, rfl⟩ : ∃ k, depth = k + 2 :=
    ⟨depth - 2, by omega⟩
  rcases h scope m (Nat.le_of_add_le_add_right hLevels) with
    ⟨w, after, hRun, hBare, hGoesOn⟩
  have hStatement :
      evaluateWithin (depth + 1) (.exprStmt first e) scope m =
        .ok w after :=
    hRun
  have hStatements := statements_single hStatement .null
  refine ⟨w, after, ?_, hBare, hGoesOn⟩
  change
    (statements (M := Eval) (evaluateWithin (depth + 1)) scope
        .null [.exprStmt first e] >>= fun v =>
      pure v.unwrapReturned) m = _
  rw [bind_eq_of_ok hStatements,
    unwrapReturned_of_isFinal hGoesOn]
  rfl

end Eval

end Monkey
