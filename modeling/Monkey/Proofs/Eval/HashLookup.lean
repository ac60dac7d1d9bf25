import Monkey.Session.Submission

/-
  Hashes as maps.

  A hash literal writes its pairs into a table in order, and
  indexing gives what was written last for the key of the index.
  Keys count as the same if they have the same content, and so
  do two texts that have the same hash.

  Main declarations:
    * `Table.find?_insert`
    * `KeyContent.Merged`
    * `Eval.PairsYield`
    * `index_hashLiteral`
    * `hashLiteral_merges_texts`
-/

namespace Monkey

------------------------------------------------------------
-- Tables
------------------------------------------------------------

/- A table gives what was inserted last. -/
theorem Table.find?_insert
    {κ ν : Type}
    [DecidableEq κ]
    (key k : κ)
    (value : ν)
    (table : Table κ ν) :
    find? k (insert key value table) =
      if key = k then some value else find? k table := by
  induction table with
  | nil => simp [insert, find?]
  | cons entry rest ih =>
      unfold insert
      by_cases hEntry : entry.1 = key
      · rw [if_pos hEntry]
        by_cases hKey : key = k
        · simp [find?, hKey]
        · simp [find?, hKey, hEntry]
      · rw [if_neg hEntry]
        by_cases hFirst : entry.1 = k
        · have hKey : key ≠ k := fun h => hEntry (h ▸ hFirst)
          simp [find?, hFirst, hKey]
        · simp [find?, hFirst, ih]

/- A new key goes to the end of a table. -/
theorem Table.insert_of_not_mem
    {κ ν : Type}
    [DecidableEq κ]
    {key : κ}
    {value : ν}
    {table : Table κ ν}
    (h : key ∉ table.map Prod.fst) :
    insert key value table = table ++ [(key, value)] := by
  induction table with
  | nil => rfl
  | cons entry rest ih =>
      rw [List.map_cons, List.mem_cons, not_or] at h
      rw [insert, if_neg (Ne.symm h.1), ih h.2]
      rfl

/- Indexing a table that was written to. -/
theorem Value.entryAt_insert
    (key k : HashKey)
    (pair : HashPair Value)
    (table : Table HashKey (HashPair Value)) :
    entryAt (table.insert key pair) k =
      if key = k then pair.value else entryAt table k := by
  unfold entryAt
  rw [Table.find?_insert]
  by_cases hKey : key = k
  · simp [hKey]
  · simp [hKey]

------------------------------------------------------------
-- Keys
------------------------------------------------------------

variable [Platform]

/- What a key is, whatever object it is. -/
inductive KeyContent where
  | integer (n : Int)
  | boolean (b : Bool)
  | text (s : String)
deriving DecidableEq

namespace KeyContent

/-
  Contents that hashes do not tell apart: equal ones, and texts
  with the same hash.
-/
def Merged (a b : KeyContent) : Prop :=
  a = b ∨
    ∃ s t, a = text s ∧ b = text t ∧ textHash s = textHash t

/- What hashes compare contents by. -/
def hashKey : KeyContent → HashKey
  | integer n => { type := .integer, number := n }
  | boolean b => Value.boolKey b
  | text s => { type := .string, number := textHash s }

omit [Platform] in
theorem hashKey_eq_iff
    (a b : KeyContent) :
    a.hashKey = b.hashKey ↔ a.Merged b := by
  cases a with
  | integer n => cases b <;> simp [hashKey, Merged, Value.boolKey]
  | boolean x =>
      cases b with
      | boolean y =>
          cases x <;> cases y <;>
            simp [hashKey, Merged, Value.boolKey]
      | _ => simp [hashKey, Merged, Value.boolKey]
  | text s =>
      cases b with
      | text t =>
          simp only [hashKey, HashKey.mk.injEq, true_and, Merged,
            text.injEq]
          constructor
          · exact fun h => .inr ⟨s, t, rfl, rfl, h⟩
          · rintro (rfl | ⟨_, _, rfl, rfl, h⟩)
            · rfl
            · exact h
      | _ => simp [hashKey, Merged, Value.boolKey]

instance (a b : KeyContent) : Decidable (a.Merged b) :=
  decidable_of_iff _ (hashKey_eq_iff a b)

end KeyContent

namespace Value

/- The content of a value that can be made a key: an integer, a
   boolean, or a text that can be encoded. -/
def keyContent? : Value → Option KeyContent
  | int n => some (.integer n)
  | bool b => some (.boolean b)
  | hostBool _ b => some (.boolean b)
  | str s => if isEncodable s then some (.text s) else none
  | _ => none

theorem hashKey?_eq_of_keyContent?
    {v : Value}
    {c : KeyContent}
    (h : v.keyContent? = some c) :
    v.hashKey? = some (.ok c.hashKey) := by
  cases v with
  | int | bool | hostBool => cases h; rfl
  | str s =>
      rw [keyContent?] at h
      by_cases hText : isEncodable s = true
      · rw [if_pos hText] at h
        cases h
        rw [hashKey?, textKey, hashText, if_pos hText]
        rfl
      · rw [if_neg hText] at h
        cases h
  | _ => cases h

/- An error is no key. -/
theorem isError_eq_false_of_keyContent?
    {v : Value}
    {c : KeyContent}
    (h : v.keyContent? = some c) :
    v.isError = false := by
  cases v with
  | error => cases h
  | _ => rfl

end Value

/- The value of the last pair whose key is the same as the given
   one, or null. -/
def lastValue
    (same : KeyContent → KeyContent → Prop)
    [DecidableRel same]
    (c : KeyContent)
    (pairs : List (KeyContent × Value)) :
    Value :=
  ((pairs.reverse.find? fun pair => same pair.1 c).map
    Prod.snd).getD .null

------------------------------------------------------------
-- Evaluated Pairs
------------------------------------------------------------

namespace Eval

omit [Platform] in
theorem bind_eq_of_ok
    {α β : Type}
    {x : Eval α}
    {f : α → Eval β}
    {m m' : Machine}
    {a : α}
    (h : x m = .ok a m') :
    (x >>= f) m = f a m' := by
  change EStateM.bind x f m = _
  unfold EStateM.bind
  rw [h]

omit [Platform] in
theorem bind_eq_of_error
    {α β : Type}
    {x : Eval α}
    {m m' : Machine}
    {failure : Failure}
    (h : x m = .error failure m')
    (f : α → Eval β) :
    (x >>= f) m = .error failure m' := by
  change EStateM.bind x f m = _
  unfold EStateM.bind
  rw [h]

/-
  What pairs of expressions evaluate to, in order and each key
  before its value: contents of keys, and values that are no
  errors.
-/
inductive PairsYield
    (eval : Node → ScopeId → Eval Value)
    (scope : ScopeId) :
    Machine → List (Node × Node) →
      List (KeyContent × Value) → Machine → Prop
  | nil (m : Machine) : PairsYield eval scope m [] [] m
  | cons
      {m m₁ m₂ m' : Machine}
      {keyNode valueNode : Node}
      {key value : Value}
      {c : KeyContent}
      {rest : List (Node × Node)}
      {others : List (KeyContent × Value)}
      (hKey : eval keyNode scope m = .ok key m₁)
      (hContent : key.keyContent? = some c)
      (hValue : eval valueNode scope m₁ = .ok value m₂)
      (hFine : value.isError = false)
      (hRest : PairsYield eval scope m₂ rest others m') :
      PairsYield eval scope m ((keyNode, valueNode) :: rest)
        ((c, value) :: others) m'

/- Pairs are written into a table: each key then has the value
   of its last pair, or else what it had before. -/
theorem hashPairs_of_pairsYield
    {eval : Node → ScopeId → Eval Value}
    {scope : ScopeId}
    {m m' : Machine}
    {pairs : List (Node × Node)}
    {yields : List (KeyContent × Value)}
    (h : PairsYield eval scope m pairs yields m')
    (table : Table HashKey (HashPair Value)) :
    ∃ table',
      hashPairs eval scope table pairs m = .ok (.ok table') m' ∧
        ∀ c : KeyContent,
          Value.entryAt table' c.hashKey =
            ((yields.reverse.find? fun pair =>
                pair.1.Merged c).map Prod.snd).getD
              (Value.entryAt table c.hashKey) := by
  induction h generalizing table with
  | nil m => exact ⟨table, rfl, fun c => rfl⟩
  | @cons m m₁ m₂ m' keyNode valueNode key value c rest others
      hKey hContent hValue hFine hRest ih =>
      have hNoError := Value.isError_eq_false_of_keyContent?
        hContent
      have hHashKey := Value.hashKey?_eq_of_keyContent? hContent
      rcases ih (table.insert c.hashKey { key, value }) with
        ⟨table', hRun, hEntries⟩
      refine ⟨table', ?_, fun d => ?_⟩
      · rw [hashPairs, bind_eq_of_ok hKey, hNoError]
        simp only [Bool.false_eq_true, if_false, hHashKey]
        rw [bind_eq_of_ok hValue, hFine]
        exact hRun
      · rw [hEntries d, Value.entryAt_insert,
          List.reverse_cons, List.find?_append]
        cases others.reverse.find? fun pair => pair.1.Merged d with
        | some pair => rfl
        | none =>
            by_cases hSame : c.Merged d
            · have hEq : c.hashKey = d.hashKey :=
                (KeyContent.hashKey_eq_iff c d).mpr hSame
              simp [hEq, hSame]
            · have hNe : c.hashKey ≠ d.hashKey := fun hEq =>
                hSame ((KeyContent.hashKey_eq_iff c d).mp hEq)
              simp [hNe, hSame]

end Eval

------------------------------------------------------------
-- Hashes
------------------------------------------------------------

/-
  A hash literal whose keys are integers, booleans, and texts
  that can be encoded, and whose values are no errors, evaluates
  to a hash.  Indexing it by a value like the keys gives the
  value of the last pair with the same key, or null.  The same
  are keys of one type and content, and texts with one hash.
-/
theorem index_hashLiteral
    (depth : Nat)
    (t : Token)
    (pairs : List (Node × Node))
    (scope : ScopeId)
    (m m' : Machine)
    (yields : List (KeyContent × Value))
    (hPairs :
      Eval.PairsYield (Eval.evaluateWithin depth) scope m pairs
        yields m') :
    ∃ h after,
      Eval.evaluateWithin (depth + 1) (.hash t pairs) scope m =
          .ok h after ∧
        ∀ (i : Value) (c : KeyContent),
          i.keyContent? = some c →
          h.applyIndex i =
            .ok (.ok (lastValue KeyContent.Merged c yields)) := by
  rcases Eval.hashPairs_of_pairsYield hPairs [] with
    ⟨table, hRun, hEntries⟩
  refine ⟨.hash m'.nextIdentity table,
    { m' with nextIdentity := m'.nextIdentity + 1 }, ?_, ?_⟩
  · have hLiteral :
        Eval.hashLiteral (Eval.evaluateWithin depth) scope pairs
            m =
          .ok (.hash m'.nextIdentity table)
            { m' with nextIdentity := m'.nextIdentity + 1 } := by
      rw [Eval.hashLiteral, Eval.bind_eq_of_ok hRun]
      rfl
    exact hLiteral
  · intro i c hContent
    have hKey := Value.hashKey?_eq_of_keyContent? hContent
    have hIndex :
        (Value.hash m'.nextIdentity table).applyIndex i =
          .ok (.ok (Value.entryAt table c.hashKey)) := by
      simp only [Value.applyIndex, hKey]
      rfl
    rw [hIndex, hEntries c]
    rfl

/- In `{"a": 1, true: 2, "a": 3}` the later text wins, the
   boolean is a key of its own, and the number one is none. -/
omit [Platform] in
theorem index_hashLiteral_repeated :
    letI := Platform.usual
    let t : Token := ⟨.illegal, "", 0, 0⟩
    let pairs : List (Node × Node) :=
      [(.string t "a", .integer t 1),
        (.boolean t true, .integer t 2),
        (.string t "a", .integer t 3)]
    ∃ h after,
      Eval.evaluateWithin 2 (.hash t pairs) Machine.root .new =
          .ok h after ∧
        h.applyIndex (.str "a") = .ok (.ok (.int 3)) ∧
        h.applyIndex (.bool true) = .ok (.ok (.int 2)) ∧
        h.applyIndex (.int 1) = .ok (.ok .null) := by
  let := Platform.usual
  intro t pairs
  have hPairs :
      Eval.PairsYield (Eval.evaluateWithin 1) Machine.root .new
        pairs
        [(.text "a", .int 1), (.boolean true, .int 2),
          (.text "a", .int 3)]
        .new :=
    .cons rfl rfl rfl rfl <| .cons rfl rfl rfl rfl <|
      .cons rfl rfl rfl rfl <| .nil _
  rcases index_hashLiteral 1 t pairs Machine.root .new .new _
      hPairs with ⟨h, after, hRun, hIndex⟩
  exact ⟨h, after, hRun, hIndex (.str "a") (.text "a") rfl,
    hIndex (.bool true) (.boolean true) rfl,
    hIndex (.int 1) (.integer 1) rfl⟩

/- The texts `ab` and `bA` have one hash, and so the second pair
   replaces the value of the first although its key is another
   text. -/
omit [Platform] in
theorem hashLiteral_merges_texts :
    letI := Platform.usual
    run "\x7b\"ab\": 1, \"bA\": 2\x7d[\"ab\"]" Machine.root
          .new =
        .ok (.int 2) ⟨#[⟨none, []⟩], "", 1⟩ ∧
      lastValue (· = ·) (.text "ab")
          [(.text "ab", .int 1), (.text "bA", .int 2)] =
        .int 1 := by
  let := Platform.usual
  exact ⟨rfl, rfl⟩

end Monkey
