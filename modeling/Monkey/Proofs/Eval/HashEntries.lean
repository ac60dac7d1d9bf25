import Mathlib.Data.List.Nodup
import Monkey.Proofs.Eval.HashLookup
import Monkey.Proofs.Eval.Log
import Monkey.Proofs.Value.Within

/-
  The entries of a hash.

  A hash literal writes its pairs into a table one by one.  What
  the table holds then can be told from the list of what was
  written: one entry for each key, where the key first came up,
  and in it the pair written last.  `Table.Records` is that
  description.  It needs no table to be stated, and every
  insertion keeps it.

  A literal that gives no hash stops at its first bad pair, and
  the log of its evaluation ends there.

  Main declarations:
    * `Table.Records`
    * `Eval.PairsEvaluate`
    * `Eval.PairStops`
    * `hashLiteral_records`
    * `hashLiteral_unencodable`
-/

namespace Monkey

------------------------------------------------------------
-- Tables
------------------------------------------------------------

namespace Table

variable {κ ν : Type} [DecidableEq κ]

/- Writing to a key that is there changes no key. -/
theorem map_fst_insert_of_mem
    {key : κ}
    {value : ν}
    {table : Table κ ν}
    (h : key ∈ table.map Prod.fst) :
    (insert key value table).map Prod.fst =
      table.map Prod.fst := by
  induction table with
  | nil => simp at h
  | cons entry rest ih =>
      unfold insert
      by_cases hEntry : entry.1 = key
      · rw [if_pos hEntry]
        simp [hEntry]
      · rw [if_neg hEntry]
        have hRest : key ∈ rest.map Prod.fst := by
          rw [List.map_cons, List.mem_cons] at h
          exact h.resolve_left (Ne.symm hEntry)
        rw [List.map_cons, List.map_cons, ih hRest]

/- The key that is written to is there. -/
theorem mem_map_fst_insert
    (key k : κ)
    (value : ν)
    (table : Table κ ν) :
    k ∈ (insert key value table).map Prod.fst ↔
      k ∈ table.map Prod.fst ∨ k = key := by
  by_cases h : key ∈ table.map Prod.fst
  · rw [map_fst_insert_of_mem h]
    constructor
    · exact .inl
    · rintro (hOld | rfl)
      · exact hOld
      · exact h
  · rw [insert_of_not_mem h]
    simp

/- In a table that has each key once, only the written entry
   has its key. -/
theorem mem_insert_of_nodup
    {key : κ}
    {value : ν}
    {table : Table κ ν}
    {entry : κ × ν}
    (hKeys : (table.map Prod.fst).Nodup)
    (h : entry ∈ insert key value table) :
    entry = (key, value) ∨ entry ∈ table ∧ entry.1 ≠ key := by
  induction table with
  | nil => exact .inl (List.mem_singleton.mp h)
  | cons first rest ih =>
      rw [List.map_cons, List.nodup_cons] at hKeys
      unfold insert at h
      by_cases hFirst : first.1 = key
      · rw [if_pos hFirst] at h
        rcases List.mem_cons.mp h with rfl | hRest
        · exact .inl rfl
        · refine .inr ⟨List.mem_cons_of_mem _ hRest, ?_⟩
          intro hSame
          apply hKeys.1
          rw [hFirst, ← hSame]
          exact List.mem_map_of_mem hRest
      · rw [if_neg hFirst] at h
        rcases List.mem_cons.mp h with rfl | hRest
        · exact .inr ⟨List.mem_cons_self, hFirst⟩
        · rcases ih hKeys.2 hRest with hNew | ⟨hOld, hOther⟩
          · exact .inl hNew
          · exact .inr ⟨List.mem_cons_of_mem _ hOld, hOther⟩

/- A table that has each key once gives the value of each
   entry. -/
theorem find?_of_mem
    {table : Table κ ν}
    {entry : κ × ν}
    (hKeys : (table.map Prod.fst).Nodup)
    (h : entry ∈ table) :
    table.find? entry.1 = some entry.2 := by
  induction table with
  | nil => simp at h
  | cons first rest ih =>
      rw [List.map_cons, List.nodup_cons] at hKeys
      unfold find?
      rcases List.mem_cons.mp h with rfl | hRest
      · rw [if_pos rfl]
      · rw [if_neg]
        · exact ih hKeys.2 hRest
        · intro hSame
          apply hKeys.1
          rw [hSame]
          exact List.mem_map_of_mem hRest

/- A table has no value for a key that is not there. -/
theorem find?_of_not_mem
    {key : κ}
    {table : Table κ ν}
    (h : key ∉ table.map Prod.fst) :
    table.find? key = none := by
  cases hFound : table.find? key with
  | none => rfl
  | some value =>
      exact absurd
        (List.mem_map_of_mem (mem_of_find? hFound)) h

/- Write pairs into a table, one after another. -/
def insertAll
    (written : List (κ × ν))
    (table : Table κ ν) :
    Table κ ν :=
  written.foldl (fun t entry => t.insert entry.1 entry.2) table

/-
  What a table holds after a list of pairs was written: the
  keys of the list, each once and in the order of their first
  occurrences, and for each the pair that was written last.
-/
structure Records
    (table : Table κ ν)
    (written : List (κ × ν)) : Prop where
  keys_once : (table.map Prod.fst).Nodup
  mem_keys :
    ∀ k, k ∈ table.map Prod.fst ↔ k ∈ written.map Prod.fst
  in_order :
    (table.map Prod.fst).Pairwise fun a b =>
      (written.map Prod.fst).idxOf a <
        (written.map Prod.fst).idxOf b
  last_written :
    ∀ entry ∈ table,
      written.reverse.find? (·.1 = entry.1) = some entry

namespace Records

theorem nil : Records ([] : Table κ ν) [] where
  keys_once := .nil
  mem_keys _ := .rfl
  in_order := .nil
  last_written := nofun

variable {table : Table κ ν} {written : List (κ × ν)}

/- What was written first stays first. -/
theorem in_order_insert
    (h : Records table written)
    (key : κ)
    (value : ν) :
    ((table.insert key value).map Prod.fst).Pairwise fun a b =>
      (written.map Prod.fst ++ [key]).idxOf a <
        (written.map Prod.fst ++ [key]).idxOf b := by
  have hOld :
      (table.map Prod.fst).Pairwise fun a b =>
        (written.map Prod.fst ++ [key]).idxOf a <
          (written.map Prod.fst ++ [key]).idxOf b := by
    refine h.in_order.imp_of_mem ?_
    intro a b hA hB hBefore
    rw [List.idxOf_append_of_mem ((h.mem_keys a).mp hA),
      List.idxOf_append_of_mem ((h.mem_keys b).mp hB)]
    exact hBefore
  by_cases hKey : key ∈ table.map Prod.fst
  · rw [map_fst_insert_of_mem hKey]
    exact hOld
  · -- The new key comes after all others in both lists.
    rw [insert_of_not_mem hKey, List.map_append,
      List.pairwise_append]
    refine ⟨hOld, List.pairwise_singleton .., ?_⟩
    intro a hA b hB
    obtain rfl : b = key := by simpa using hB
    have hNew : b ∉ written.map Prod.fst :=
      fun hMem => hKey ((h.mem_keys b).mpr hMem)
    have hWritten := (h.mem_keys a).mp hA
    rw [List.idxOf_append_of_mem hWritten,
      List.idxOf_append_of_notMem hNew]
    have := List.idxOf_lt_length_of_mem hWritten
    omega

/- One more pair is written. -/
theorem insert
    (h : Records table written)
    (key : κ)
    (value : ν) :
    Records (table.insert key value)
      (written ++ [(key, value)]) where
  keys_once := by
    by_cases hKey : key ∈ table.map Prod.fst
    · rw [map_fst_insert_of_mem hKey]
      exact h.keys_once
    · rw [insert_of_not_mem hKey, List.map_append,
        List.nodup_append]
      refine ⟨h.keys_once, List.nodup_singleton _, ?_⟩
      intro a hA b hB
      obtain rfl : b = key := by simpa using hB
      exact fun hSame => hKey (hSame ▸ hA)
  mem_keys k := by
    rw [mem_map_fst_insert, h.mem_keys]
    simp
  in_order := by
    rw [List.map_append]
    exact h.in_order_insert key value
  last_written entry hEntry := by
    rw [List.reverse_append, List.reverse_singleton,
      List.singleton_append]
    rcases mem_insert_of_nodup h.keys_once hEntry with
      rfl | ⟨hOld, hOther⟩
    · exact List.find?_cons_of_pos (by simp)
    · rw [List.find?_cons_of_neg
        (by simpa using Ne.symm hOther)]
      exact h.last_written entry hOld

theorem insertAll
    (h : Records table written)
    (more : List (κ × ν)) :
    Records (insertAll more table) (written ++ more) := by
  induction more generalizing table written with
  | nil => simpa [Table.insertAll] using h
  | cons entry rest ih =>
      have hRest := ih (h.insert entry.1 entry.2)
      rw [List.append_assoc] at hRest
      exact hRest

/- Looking a key up gives what was written last for it. -/
theorem find?_eq
    (h : Records table written)
    (k : κ) :
    table.find? k =
      (written.reverse.find? (·.1 = k)).map Prod.snd := by
  by_cases hKey : k ∈ table.map Prod.fst
  · rcases List.mem_map.mp hKey with ⟨entry, hEntry, rfl⟩
    rw [find?_of_mem h.keys_once hEntry,
      h.last_written entry hEntry]
    rfl
  · rw [find?_of_not_mem hKey]
    have hNone :
        written.reverse.find? (·.1 = k) = none := by
      rw [List.find?_eq_none]
      intro entry hEntry hSame
      apply hKey
      rw [h.mem_keys, ← of_decide_eq_true hSame]
      exact List.mem_map_of_mem (List.mem_reverse.mp hEntry)
    rw [hNone]
    rfl

/- Nothing is in a table but what was written. -/
theorem mem_written
    (h : Records table written)
    {entry : κ × ν}
    (hEntry : entry ∈ table) :
    entry ∈ written :=
  List.mem_reverse.mp
    (List.mem_of_find?_eq_some (h.last_written entry hEntry))

end Records

end Table

------------------------------------------------------------
-- Evaluated Pairs
------------------------------------------------------------

variable [Platform]

namespace Logged

/- Evaluate nodes one after another, whatever they give. -/
def inTurn
    (eval : Node → ScopeId → Logged Value)
    (scope : ScopeId) :
    List Node → Logged Unit
  | [] => pure ()
  | node :: rest => do
      let _ ← eval node scope
      inTurn eval scope rest

end Logged

/- A value with a key is no error. -/
theorem Value.isError_eq_false_of_hashKey?
    {v : Value}
    {made : Except Failure HashKey}
    (h : v.hashKey? = some made) :
    v.isError = false := by
  cases v with
  | error => cases h
  | _ => rfl

/- The two parts of each pair, in order. -/
def partsOf : List (Node × Node) → List Node
  | [] => []
  | (keyNode, valueNode) :: rest =>
      keyNode :: valueNode :: partsOf rest

namespace Eval

/-
  What pairs of expressions evaluate to, in order and each key
  before its value: values that are no errors, the first ones
  with a key.
-/
inductive PairsEvaluate
    (eval : Node → ScopeId → Eval Value)
    (scope : ScopeId) :
    Machine → List (Node × Node) →
      List (HashKey × HashPair Value) → Machine → Prop
  | nil (m : Machine) : PairsEvaluate eval scope m [] [] m
  | cons
      {m m₁ m₂ m' : Machine}
      {keyNode valueNode : Node}
      {key value : Value}
      {k : HashKey}
      {rest : List (Node × Node)}
      {others : List (HashKey × HashPair Value)}
      (hKey : eval keyNode scope m = .ok key m₁)
      (hHashKey : key.hashKey? = some (.ok k))
      (hValue : eval valueNode scope m₁ = .ok value m₂)
      (hFine : value.isError = false)
      (hRest : PairsEvaluate eval scope m₂ rest others m') :
      PairsEvaluate eval scope m ((keyNode, valueNode) :: rest)
        ((k, { key, value }) :: others) m'

/-
  A pair of expressions that stops a hash literal: the parts of
  it that are evaluated, and what the literal results in.
-/
inductive PairStops
    (eval : Node → ScopeId → Eval Value)
    (scope : ScopeId)
    (m : Machine) :
    Node × Node → List Node →
      EStateM.Result Failure Machine Value → Prop
  | keyFails
      {m₁ : Machine}
      {keyNode valueNode : Node}
      {failure : Failure}
      (hKey : eval keyNode scope m = .error failure m₁) :
      PairStops eval scope m (keyNode, valueNode) [keyNode]
        (.error failure m₁)
  | keyError
      {m₁ : Machine}
      {keyNode valueNode : Node}
      {key : Value}
      (hKey : eval keyNode scope m = .ok key m₁)
      (hError : key.isError = true) :
      PairStops eval scope m (keyNode, valueNode) [keyNode]
        (.ok key m₁)
  | unusable
      {m₁ : Machine}
      {keyNode valueNode : Node}
      {key : Value}
      (hKey : eval keyNode scope m = .ok key m₁)
      (hFine : key.isError = false)
      (hHashKey : key.hashKey? = none) :
      PairStops eval scope m (keyNode, valueNode) [keyNode]
        (.ok
          (.error m₁.nextIdentity
            (Complaint.unusableKey key.type).message)
          { m₁ with nextIdentity := m₁.nextIdentity + 1 })
  | valueFails
      {m₁ m₂ : Machine}
      {keyNode valueNode : Node}
      {key : Value}
      {made : Except Failure HashKey}
      {failure : Failure}
      (hKey : eval keyNode scope m = .ok key m₁)
      (hHashKey : key.hashKey? = some made)
      (hValue : eval valueNode scope m₁ = .error failure m₂) :
      PairStops eval scope m (keyNode, valueNode)
        [keyNode, valueNode] (.error failure m₂)
  | valueError
      {m₁ m₂ : Machine}
      {keyNode valueNode : Node}
      {key value : Value}
      {made : Except Failure HashKey}
      (hKey : eval keyNode scope m = .ok key m₁)
      (hHashKey : key.hashKey? = some made)
      (hValue : eval valueNode scope m₁ = .ok value m₂)
      (hError : value.isError = true) :
      PairStops eval scope m (keyNode, valueNode)
        [keyNode, valueNode] (.ok value m₂)
  | keyUnmade
      {m₁ m₂ : Machine}
      {keyNode valueNode : Node}
      {key value : Value}
      {failure : Failure}
      (hKey : eval keyNode scope m = .ok key m₁)
      (hHashKey : key.hashKey? = some (.error failure))
      (hValue : eval valueNode scope m₁ = .ok value m₂)
      (hFine : value.isError = false) :
      PairStops eval scope m (keyNode, valueNode)
        [keyNode, valueNode] (.error failure m₂)

/- A pair stops the literal, or gives a key and a value. -/
theorem pairStops_or_evaluates
    (eval : Node → ScopeId → Eval Value)
    (scope : ScopeId)
    (keyNode valueNode : Node)
    (m : Machine) :
    (∃ parts r,
        PairStops eval scope m (keyNode, valueNode) parts r) ∨
      ∃ key k m₁ value m₂,
        eval keyNode scope m = .ok key m₁ ∧
          key.hashKey? = some (.ok k) ∧
          eval valueNode scope m₁ = .ok value m₂ ∧
          value.isError = false := by
  cases hKey : eval keyNode scope m with
  | error failure m₁ => exact .inl ⟨_, _, .keyFails hKey⟩
  | ok key m₁ =>
  cases hError : key.isError with
  | true => exact .inl ⟨_, _, .keyError hKey hError⟩
  | false =>
  cases hHashKey : key.hashKey? with
  | none => exact .inl ⟨_, _, .unusable hKey hError hHashKey⟩
  | some made =>
  cases hValue : eval valueNode scope m₁ with
  | error failure m₂ =>
      exact .inl ⟨_, _, .valueFails hKey hHashKey hValue⟩
  | ok value m₂ =>
  cases hFine : value.isError with
  | true =>
      exact .inl ⟨_, _, .valueError hKey hHashKey hValue hFine⟩
  | false =>
  cases made with
  | error failure =>
      exact .inl ⟨_, _, .keyUnmade hKey hHashKey hValue hFine⟩
  | ok k =>
      exact .inr ⟨key, k, m₁, value, m₂, rfl, hHashKey, hValue,
        hFine⟩

/- Pairs all evaluate, or else one of them is the first that
   stops the literal. -/
theorem pairsEvaluate_or_pairStops
    (eval : Node → ScopeId → Eval Value)
    (scope : ScopeId)
    (pairs : List (Node × Node))
    (m : Machine) :
    (∃ written m', PairsEvaluate eval scope m pairs written m') ∨
      ∃ before pair later written m₁ parts r,
        pairs = before ++ pair :: later ∧
          PairsEvaluate eval scope m before written m₁ ∧
          PairStops eval scope m₁ pair parts r := by
  induction pairs generalizing m with
  | nil => exact .inl ⟨[], m, .nil m⟩
  | cons pair rest ih =>
      rcases pair with ⟨keyNode, valueNode⟩
      rcases pairStops_or_evaluates eval scope keyNode valueNode
          m with
        ⟨parts, r, hStops⟩ |
        ⟨key, k, m₁, value, m₂, hKey, hHashKey, hValue, hFine⟩
      · exact .inr ⟨[], _, rest, [], m, parts, r, rfl, .nil m,
          hStops⟩
      · rcases ih m₂ with
          ⟨others, m', hRest⟩ |
          ⟨before, pair, later, others, m₃, parts, r, rfl,
            hBefore, hStops⟩
        · exact .inl ⟨_, m',
            .cons hKey hHashKey hValue hFine hRest⟩
        · exact .inr ⟨_ :: before, pair, later, _, m₃, parts, r,
            rfl, .cons hKey hHashKey hValue hFine hBefore,
            hStops⟩

/- The keys that are written are those of the objects written
   with them. -/
theorem PairsEvaluate.hashKey?_eq
    {eval : Node → ScopeId → Eval Value}
    {scope : ScopeId}
    {m m' : Machine}
    {pairs : List (Node × Node)}
    {written : List (HashKey × HashPair Value)}
    (h : PairsEvaluate eval scope m pairs written m') :
    ∀ entry ∈ written,
      entry.2.key.hashKey? = some (.ok entry.1) := by
  induction h with
  | nil => exact nofun
  | cons hKey hHashKey hValue hFine hRest ih =>
      intro entry hEntry
      rcases List.mem_cons.mp hEntry with rfl | hOther
      · exact hHashKey
      · exact ih entry hOther

------------------------------------------------------------
-- Written Pairs
------------------------------------------------------------

variable {eval : Node → ScopeId → Logged Value}
variable {scope : ScopeId}

/- Evaluating a pair writes it into the table and goes on. -/
theorem hashPairs_cons
    {m m₁ m₂ : Machine}
    {keyNode valueNode : Node}
    {key value : Value}
    {k : HashKey}
    (hKey : (eval keyNode scope m).2 = .ok key m₁)
    (hHashKey : key.hashKey? = some (.ok k))
    (hValue : (eval valueNode scope m₁).2 = .ok value m₂)
    (hFine : value.isError = false)
    (table : Table HashKey (HashPair Value))
    (rest : List (Node × Node)) :
    hashPairs eval scope table ((keyNode, valueNode) :: rest) m =
      ((eval keyNode scope m).1 ++
          ((eval valueNode scope m₁).1 ++
            (hashPairs eval scope (table.insert k { key, value })
              rest m₂).1),
        (hashPairs eval scope (table.insert k { key, value })
          rest m₂).2) := by
  have hNoError := Value.isError_eq_false_of_hashKey? hHashKey
  rw [hashPairs, Logged.bind_of_ok hKey, hNoError]
  simp only [Bool.false_eq_true, if_false, hHashKey]
  rw [Logged.bind_of_ok hValue, hFine]
  rfl

omit [Platform] in
theorem inTurn_pair
    {m m₁ m₂ : Machine}
    {keyNode valueNode : Node}
    {key value : Value}
    (hKey : (eval keyNode scope m).2 = .ok key m₁)
    (hValue : (eval valueNode scope m₁).2 = .ok value m₂)
    (rest : List Node) :
    Logged.inTurn eval scope (keyNode :: valueNode :: rest) m =
      ((eval keyNode scope m).1 ++
          ((eval valueNode scope m₁).1 ++
            (Logged.inTurn eval scope rest m₂).1),
        (Logged.inTurn eval scope rest m₂).2) := by
  rw [Logged.inTurn, Logged.bind_of_ok hKey, Logged.inTurn,
    Logged.bind_of_ok hValue]

/- Pairs that evaluate are written into the table, and what
   comes after them goes on with it. -/
theorem hashPairs_of_pairsEvaluate
    {m m' : Machine}
    {before : List (Node × Node)}
    {written : List (HashKey × HashPair Value)}
    (h :
      PairsEvaluate (fun n s => (eval n s).result) scope m before
        written m')
    (table : Table HashKey (HashPair Value))
    (later : List (Node × Node)) :
    hashPairs eval scope table (before ++ later) m =
      ((Logged.inTurn eval scope (partsOf before) m).1 ++
          (hashPairs eval scope (table.insertAll written) later
            m').1,
        (hashPairs eval scope (table.insertAll written) later
          m').2) := by
  induction h generalizing table with
  | nil m => rfl
  | cons hKey hHashKey hValue hFine hRest ih =>
      rw [List.cons_append,
        hashPairs_cons hKey hHashKey hValue hFine, ih, partsOf,
        inTurn_pair hKey hValue]
      simp only [List.append_assoc]
      rfl

theorem inTurn_of_pairsEvaluate
    {m m' : Machine}
    {before : List (Node × Node)}
    {written : List (HashKey × HashPair Value)}
    (h :
      PairsEvaluate (fun n s => (eval n s).result) scope m before
        written m')
    (parts : List Node) :
    Logged.inTurn eval scope (partsOf before ++ parts) m =
      ((Logged.inTurn eval scope (partsOf before) m).1 ++
          (Logged.inTurn eval scope parts m').1,
        (Logged.inTurn eval scope parts m').2) := by
  induction h with
  | nil m => rfl
  | cons hKey hHashKey hValue hFine hRest ih =>
      rw [partsOf, List.cons_append, List.cons_append,
        inTurn_pair hKey hValue, inTurn_pair hKey hValue, ih]
      simp only [List.append_assoc]

/- What a literal that stops results in, before it would make a
   hash. -/
def stopped :
    EStateM.Result Failure Machine Value →
      EStateM.Result Failure Machine
        (Except Value (Table HashKey (HashPair Value)))
  | .ok v m => .ok (.error v) m
  | .error failure m => .error failure m

/- After the parts of a pair that stops the literal nothing is
   evaluated.  At most the error is made that tells about an
   unusable key, or it is found that a key cannot be made. -/
theorem hashPairs_of_pairStops
    {m : Machine}
    {pair : Node × Node}
    {parts : List Node}
    {r : EStateM.Result Failure Machine Value}
    (h :
      PairStops (fun n s => (eval n s).result) scope m pair parts
        r)
    (table : Table HashKey (HashPair Value))
    (later : List (Node × Node)) :
    ∃ made,
      hashPairs eval scope table (pair :: later) m =
          ((Logged.inTurn eval scope parts m).1 ++ made,
            stopped r) ∧
        ∀ e ∈ made, ∃ a b, e = .acts a b := by
  cases h with
  | keyFails hKey =>
      refine ⟨[], ?_, nofun⟩
      rw [hashPairs, Logged.bind_of_error hKey, Logged.inTurn,
        Logged.bind_of_error hKey, List.append_nil]
      rfl
  | keyError hKey hError =>
      refine ⟨[], ?_, nofun⟩
      rw [hashPairs, Logged.bind_of_ok hKey, hError,
        Logged.inTurn, Logged.bind_of_ok hKey, List.append_nil]
      rfl
  | @unusable m₁ keyNode valueNode key hKey hFine hHashKey =>
      refine ⟨[.acts m₁
        { m₁ with nextIdentity := m₁.nextIdentity + 1 }], ?_, ?_⟩
      · rw [hashPairs, Logged.bind_of_ok hKey, hFine,
          Logged.inTurn, Logged.bind_of_ok hKey]
        simp only [Bool.false_eq_true, if_false, hHashKey]
        rw [List.append_assoc]
        rfl
      · simp
  | valueFails hKey hHashKey hValue =>
      refine ⟨[], ?_, nofun⟩
      rw [hashPairs, Logged.bind_of_ok hKey,
        Value.isError_eq_false_of_hashKey? hHashKey,
        Logged.inTurn, Logged.bind_of_ok hKey, Logged.inTurn]
      simp only [Bool.false_eq_true, if_false, hHashKey]
      rw [Logged.bind_of_error hValue,
        Logged.bind_of_error hValue, List.append_nil]
      rfl
  | valueError hKey hHashKey hValue hError =>
      refine ⟨[], ?_, nofun⟩
      rw [hashPairs, Logged.bind_of_ok hKey,
        Value.isError_eq_false_of_hashKey? hHashKey,
        inTurn_pair hKey hValue]
      simp only [Bool.false_eq_true, if_false, hHashKey]
      rw [Logged.bind_of_ok hValue, hError, List.append_nil]
      rfl
  | @keyUnmade m₁ m₂ keyNode valueNode key value failure hKey
      hHashKey hValue hFine =>
      refine ⟨[.acts m₂ m₂], ?_, by simp⟩
      rw [hashPairs, Logged.bind_of_ok hKey,
        Value.isError_eq_false_of_hashKey? hHashKey,
        inTurn_pair hKey hValue]
      simp only [Bool.false_eq_true, if_false, hHashKey]
      rw [Logged.bind_of_ok hValue, hFine, List.append_assoc,
        List.append_assoc]
      rfl

------------------------------------------------------------
-- Hashes
------------------------------------------------------------

/- Pairs that all evaluate become the entries of a hash. -/
theorem evaluateWithin_hash_of_pairsEvaluate
    {depth : Nat}
    {scope : ScopeId}
    {m m' : Machine}
    {pairs : List (Node × Node)}
    {written : List (HashKey × HashPair Value)}
    (t : Token)
    (h :
      PairsEvaluate (evaluateWithin depth) scope m pairs written
        m') :
    evaluateWithin (depth + 1) (.hash t pairs) scope m =
      .ok (.hash m'.nextIdentity (Table.insertAll written []))
        { m' with nextIdentity := m'.nextIdentity + 1 } := by
  rw [← part_evaluateLogged_result (.hash t pairs)] at h
  have hPairs := hashPairs_of_pairsEvaluate h [] []
  rw [List.append_nil] at hPairs
  rw [← evaluateLogged_result]
  change (hashLiteral
    (Logged.part (.hash t pairs) (evaluateLogged depth)) scope
    pairs m).2 = _
  rw [hashLiteral, Logged.bind_of_ok (congrArg Prod.snd hPairs)]
  rfl

/- A pair that stops the literal gives its result and ends its
   log. -/
theorem evaluateLogged_hash_of_pairStops
    {depth : Nat}
    {scope : ScopeId}
    {m m₁ : Machine}
    {before later : List (Node × Node)}
    {pair : Node × Node}
    {written : List (HashKey × HashPair Value)}
    {parts : List Node}
    {r : EStateM.Result Failure Machine Value}
    (t : Token)
    (hBefore :
      PairsEvaluate (evaluateWithin depth) scope m before written
        m₁)
    (hStops :
      PairStops (evaluateWithin depth) scope m₁ pair parts r) :
    let node : Node := .hash t (before ++ pair :: later)
    ∃ made,
      evaluateLogged (depth + 1) node scope m =
          ((Logged.inTurn
              (Logged.part node (evaluateLogged depth)) scope
              (partsOf before ++ parts) m).1 ++ made, r) ∧
        ∀ e ∈ made, ∃ a b, e = .acts a b := by
  intro node
  rw [← part_evaluateLogged_result node] at hBefore hStops
  rcases hashPairs_of_pairStops hStops
      (Table.insertAll written []) later with
    ⟨made, hPair, hMade⟩
  refine ⟨made, ?_, hMade⟩
  have hPairs :=
    hashPairs_of_pairsEvaluate hBefore [] (pair :: later)
  rw [hPair, ← List.append_assoc] at hPairs
  change hashLiteral (Logged.part node (evaluateLogged depth))
    scope (before ++ pair :: later) m = _
  rw [inTurn_of_pairsEvaluate hBefore, hashLiteral]
  cases r with
  | ok v m₂ =>
      rw [Logged.bind_of_ok (congrArg Prod.snd hPairs), hPairs]
      change (_ ++ [], _) = _
      rw [List.append_nil]
      rfl
  | error failure m₂ =>
      rw [Logged.bind_of_error (congrArg Prod.snd hPairs), hPairs]

theorem evaluateWithin_hash_of_pairStops
    {depth : Nat}
    {scope : ScopeId}
    {m m₁ : Machine}
    {before later : List (Node × Node)}
    {pair : Node × Node}
    {written : List (HashKey × HashPair Value)}
    {parts : List Node}
    {r : EStateM.Result Failure Machine Value}
    (t : Token)
    (hBefore :
      PairsEvaluate (evaluateWithin depth) scope m before written
        m₁)
    (hStops :
      PairStops (evaluateWithin depth) scope m₁ pair parts r) :
    evaluateWithin (depth + 1) (.hash t (before ++ pair :: later))
        scope m =
      r := by
  rcases evaluateLogged_hash_of_pairStops t hBefore hStops with
    ⟨made, hRun, -⟩
  rw [← evaluateLogged_result]
  exact congrArg Prod.snd hRun

end Eval

/-
  A hash literal whose keys and values all evaluate, the keys
  to values with a key, makes a hash that records its pairs: an
  entry for each key where it first came up, and in it the last
  pair with that key.  The key of an entry is that of the object
  in it, and indexing by a value with a key gives the value of
  the last pair with that key, or null.

  Any other literal stops at the first pair with a part that
  fails or is an error, with an unusable key, or with a text for
  a key that cannot be encoded, and nothing is evaluated after
  that part.  That a text cannot be encoded comes out only when
  the value has been evaluated.
-/
theorem hashLiteral_records
    (depth : Nat)
    (t : Token)
    (pairs : List (Node × Node))
    (scope : ScopeId)
    (m : Machine) :
    (∀ written m',
        Eval.PairsEvaluate (Eval.evaluateWithin depth) scope m
          pairs written m' →
        ∃ entries,
          Eval.evaluateWithin (depth + 1) (.hash t pairs) scope m =
              .ok (.hash m'.nextIdentity entries)
                { m' with nextIdentity := m'.nextIdentity + 1 } ∧
            Table.Records entries written ∧
            (∀ entry ∈ entries,
              entry.2.key.hashKey? = some (.ok entry.1)) ∧
            ∀ (i : Value) (k : HashKey),
              i.hashKey? = some (.ok k) →
              (Value.hash m'.nextIdentity entries).applyIndex i =
                .ok (.ok
                  (((written.reverse.find? (·.1 = k)).map
                    (·.2.value)).getD .null))) ∧
      ((∃ written m',
          Eval.PairsEvaluate (Eval.evaluateWithin depth) scope m
            pairs written m') ∨
        ∃ before pair later written m₁ parts r made,
          pairs = before ++ pair :: later ∧
            Eval.PairsEvaluate (Eval.evaluateWithin depth) scope m
              before written m₁ ∧
            Eval.PairStops (Eval.evaluateWithin depth) scope m₁
              pair parts r ∧
            Eval.evaluateWithin (depth + 1) (.hash t pairs) scope
                m = r ∧
            (Eval.evaluateLogged (depth + 1) (.hash t pairs) scope
                m).1 =
              (Logged.inTurn
                (Logged.part (.hash t pairs)
                  (Eval.evaluateLogged depth))
                scope (partsOf before ++ parts) m).1 ++ made ∧
            ∀ e ∈ made, ∃ a b, e = .acts a b) := by
  constructor
  · intro written m' hPairs
    have hRecords := Table.Records.nil.insertAll written
    rw [List.nil_append] at hRecords
    refine ⟨Table.insertAll written [],
      Eval.evaluateWithin_hash_of_pairsEvaluate t hPairs, hRecords,
      fun entry hEntry => hPairs.hashKey?_eq entry
        (hRecords.mem_written hEntry), ?_⟩
    intro i k hKey
    simp only [Value.applyIndex, hKey]
    change
      Except.ok (Except.ok (Value.entryAt (.insertAll written []) k)) =
        _
    rw [Value.entryAt, hRecords.find?_eq]
    cases written.reverse.find? (·.1 = k) with
    | none => rfl
    | some entry => rfl
  · rcases Eval.pairsEvaluate_or_pairStops
        (Eval.evaluateWithin depth) scope pairs m with
      hAll |
      ⟨before, pair, later, written, m₁, parts, r, rfl, hBefore,
        hStops⟩
    · exact .inl hAll
    · rcases Eval.evaluateLogged_hash_of_pairStops t hBefore
          hStops with
        ⟨made, hRun, hMade⟩
      refine .inr ⟨before, pair, later, written, m₁, parts, r,
        made, rfl, hBefore, hStops,
        Eval.evaluateWithin_hash_of_pairStops t hBefore hStops,
        congrArg Prod.fst hRun, hMade⟩

/- In `{1: "a", true: "b", 1: "c", "x": "d"}` the number one
   stays the first key and gets the last value written for it. -/
omit [Platform] in
theorem hashLiteral_records_repeated :
    letI := Platform.usual
    let t : Token := ⟨.illegal, "", 0, 0⟩
    let pairs : List (Node × Node) :=
      [(.integer t 1, .string t "a"),
        (.boolean t true, .string t "b"),
        (.integer t 1, .string t "c"),
        (.string t "x", .string t "d")]
    let one : HashKey := ⟨.integer, 1⟩
    let written : List (HashKey × HashPair Value) :=
      [(one, ⟨.int 1, .str "a"⟩),
        (⟨.boolean, 1⟩, ⟨.bool true, .str "b"⟩),
        (one, ⟨.int 1, .str "c"⟩),
        (⟨.string, textHash "x"⟩, ⟨.str "x", .str "d"⟩)]
    ∃ entries,
      Eval.evaluateWithin 2 (.hash t pairs) Machine.root .new =
          .ok (.hash 0 entries)
            { Machine.new with nextIdentity := 1 } ∧
        Table.Records entries written ∧
        (Value.hash 0 entries).applyIndex (.int 1) =
          .ok (.ok (.str "c")) ∧
        (Value.hash 0 entries).applyIndex (.int 2) =
          .ok (.ok .null) := by
  let := Platform.usual
  intro t pairs one written
  have hPairs :
      Eval.PairsEvaluate (Eval.evaluateWithin 1) Machine.root .new
        pairs written .new :=
    .cons rfl rfl rfl rfl <| .cons rfl rfl rfl rfl <|
      .cons rfl rfl rfl rfl <| .cons rfl rfl rfl rfl <| .nil _
  rcases (hashLiteral_records 1 t pairs Machine.root .new).1
      written .new hPairs with
    ⟨entries, hRun, hRecords, -, hIndex⟩
  exact ⟨entries, hRun, hRecords, hIndex (.int 1) one rfl,
    hIndex (.int 2) ⟨.integer, 2⟩ rfl⟩

/- There is no key for a text that cannot be encoded. -/
theorem Value.hashKey?_of_not_isEncodable
    {text : String}
    (h : isEncodable text = false) :
    (Value.str text).hashKey? =
      some (.error (.unencodable text)) := by
  have hText : ¬ isEncodable text = true := by
    rw [h]
    exact Bool.false_ne_true
  rw [hashKey?, textKey, hashText, if_neg hText]
  rfl

/- Texts are hashable, and half of a surrogate pair evaluates as
   any text does.  But there is no hash with it for a key, and
   `{1: 2}` cannot be asked for it. -/
omit [Platform] in
theorem hashLiteral_unencodable :
    letI := Platform.usual
    let lone := String.singleton (Platform.half 0xDCFF)
    let t : Token := ⟨.illegal, "", 0, 0⟩
    let h : Value := .hash 0 [(⟨.integer, 1⟩, ⟨.int 1, .int 2⟩)]
    (Value.str lone).hashKey?.isSome = true ∧
      Eval.evaluateWithin 1 (.string t lone) Machine.root .new =
        .ok (.str lone) .new ∧
      Eval.evaluateWithin 1 (.integer t 1) Machine.root .new =
        .ok (.int 1) .new ∧
      Eval.evaluateWithin 2
          (.hash t [(.string t lone, .integer t 1)])
          Machine.root .new =
        .error (.unencodable lone) .new ∧
      h.applyIndex (.str lone) = .error (.unencodable lone) := by
  let := Platform.usual
  intro lone t h
  have hKey :
      (Value.str lone).hashKey? =
        some (.error (.unencodable lone)) :=
    Value.hashKey?_of_not_isEncodable (by decide +kernel)
  have hStops :
      Eval.PairStops (Eval.evaluateWithin 1) Machine.root .new
        (.string t lone, .integer t 1)
        [.string t lone, .integer t 1]
        (.error (.unencodable lone) .new) :=
    .keyUnmade rfl hKey rfl rfl
  have hLiteral :
      Eval.evaluateWithin 2
          (.hash t [(.string t lone, .integer t 1)])
          Machine.root .new =
        .error (.unencodable lone) .new :=
    Eval.evaluateWithin_hash_of_pairStops t (.nil .new) hStops
  have hIndex :
      h.applyIndex (.str lone) = .error (.unencodable lone) := by
    simp only [h, Value.applyIndex, hKey]
    rfl
  exact ⟨rfl, rfl, rfl, hLiteral, hIndex⟩

end Monkey
