import Monkey.Proofs.Eval.Data
import Monkey.Proofs.Parse.Levels
import Monkey.Proofs.Session.Answers
import Monkey.Proofs.Text.Decimal

/-
  The written form of data is read back.

  A value reads back if its written form is that of an
  expression which evaluates to a value built alike.  Integers
  and booleans do, a negative integer by way of a sign, and
  arrays and hashes do where their parts do.  So running the
  written form of data gives the data again.

  Main declarations:
    * `ReadsBack`
    * `ReadsBack.array`
    * `ReadsBack.hash`
    * `run_inspect`
-/

namespace Monkey

------------------------------------------------------------
-- Reading Back
------------------------------------------------------------

variable [Platform]

/- Tokens that are read, wherever they stand, as an expression
   that gives back a value. -/
def ReadAs
    (levels : Nat)
    (v : Value)
    (ts : List Token) : Prop :=
  ∀ us, List.Forall₂ Token.Alike ts us →
    ∃ e, Eval.GivesBack levels e v ∧
      Parse.ReadsAt levels e us

/- A value whose written form, a given text, gives it back
   within a number of levels of nesting. -/
structure ReadsBack
    (levels : Nat)
    (v : Value)
    (text : String) : Prop where
  inspect : ∀ depth, levels ≤ depth → v.inspect depth = .ok text
  read : ∃ ts, ReadAs levels v ts ∧ Writes text ts

------------------------------------------------------------
-- Integers and Booleans
------------------------------------------------------------

/- The token of a number. -/
def Token.ofNat (n : Nat) : Token where
  kind := .int
  literal := n.repr
  line := 0
  column := 0

omit [Platform] in
theorem writes_ofNat
    (n : Nat) :
    Writes n.repr [Token.ofNat n] := by
  have hToken : (Token.ofNat n).WellFormed := lexeme_repr n
  have hKind : (Token.ofNat n).kind = .int := rfl
  have hWrites :
      Writes (Token.ofNat n).literal [Token.ofNat n] :=
    writes_token hToken (by rw [hKind]; decide)
  exact hWrites

/- What the token of a number is read as, wherever it stands. -/
omit [Platform] in
theorem spells_ofNat
    {n : Nat}
    {t : Token}
    (hAlike : (Token.ofNat n).Alike t)
    (hDigits : n < Nat.pow 10 digitLimit) :
    Spells Eq (.expression (.integer t n) .call) [t] := by
  have hText : t.literal = n.repr := hAlike.2.symm
  have hSpells : Spells Eq (.expression _ .call) [t] :=
    .integer hAlike.1.symm
      (by rw [hText]; exact length_repr_le (by decide) hDigits)
      rfl
  rwa [hText, digitsValue_repr] at hSpells

namespace ReadsBack

variable {levels : Nat}

theorem nonnegative
    {n : Nat}
    (hDigits : n < Nat.pow 10 digitLimit) :
    ReadsBack (levels + 1) (.int n) n.repr := by
  refine ⟨?_, [.ofNat n], ?_, writes_ofNat n⟩
  · intro depth hDepth
    obtain ⟨depth, rfl⟩ : ∃ k, depth = k + 1 :=
      Nat.exists_eq_add_one.mpr (Nat.zero_lt_of_lt hDepth)
    rw [Value.inspect]
    exact inspectInteger_of_some
      (writeInteger?_natCast hDigits)
  · intro us hAlike
    rcases exists_single_of_alike hAlike with ⟨t, rfl, hToken⟩
    exact ⟨.integer t n,
      Eval.GivesBack.mono (Eval.GivesBack.integer t n)
        (Nat.le_add_left 1 _),
      (Parse.ReadsAt.of_spells (spells_ofNat hToken hDigits)).mono
        (Nat.le_add_left 1 _)⟩

/- A negative number is a sign and a number. -/
theorem negative
    {n : Nat}
    (hDigits : n < Nat.pow 10 digitLimit)
    (hPositive : 0 < n) :
    ReadsBack (levels + 2) (.int (-n)) ("-" ++ n.repr) := by
  refine ⟨?_, [.ofMark .minus '-', .ofNat n], ?_, ?_⟩
  · intro depth hDepth
    obtain ⟨depth, rfl⟩ : ∃ k, depth = k + 1 :=
      Nat.exists_eq_add_one.mpr (Nat.zero_lt_of_lt hDepth)
    rw [Value.inspect]
    exact inspectInteger_of_some
      (writeInteger?_neg hDigits hPositive)
  · intro us hAlike
    rcases exists_cons_of_alike hAlike with
      ⟨sign, rest, rfl, hSign, hRest⟩
    rcases exists_single_of_alike hRest with ⟨t, rfl, hToken⟩
    have hText : sign.literal = "-" := hSign.2.symm
    have hSpells :
        Spells Eq
          (.expression (.prefixOp sign "-" (.integer t n)) .unary)
          [sign, t] := by
      rw [← hText]
      exact .prefixOp (.inr hSign.1.symm) rfl
        (spells_ofNat hToken hDigits) (by decide)
    exact ⟨.prefixOp sign "-" (.integer t n),
      Eval.GivesBack.mono (Eval.GivesBack.negative sign t n)
        (Nat.le_add_left 2 _),
      (Parse.ReadsAt.of_spells hSpells).mono
        (Nat.le_add_left 2 _)⟩
  · intro more hMore
    have hAll :=
      Scans.ofMark (c := '-') rfl (fun _ _ => rfl)
        (writes_ofNat n more hMore)
    simpa using hAll

/- An integer, whatever its sign. -/
theorem exists_integer
    {n : Int}
    (hDigits : n.natAbs < Nat.pow 10 digitLimit)
    (hSign : n < 0 → 0 < levels) :
    ∃ text, ReadsBack (levels + 1) (.int n) text := by
  rcases n.eq_nat_or_neg with ⟨k, rfl | rfl⟩
  · rw [Int.natAbs_natCast] at hDigits
    exact ⟨_, nonnegative hDigits⟩
  · rw [Int.natAbs_neg, Int.natAbs_natCast] at hDigits
    rcases Nat.eq_zero_or_pos k with rfl | hPositive
    · exact ⟨_, nonnegative hDigits⟩
    · have hLevels : 0 < levels := hSign (by simpa using hPositive)
      obtain ⟨levels, rfl⟩ : ∃ l, levels = l + 1 :=
        Nat.exists_eq_add_one.mpr hLevels
      exact ⟨_, negative hDigits hPositive⟩

/- The token of a boolean. -/
def boolToken (b : Bool) : Token where
  kind := if b then .trueWord else .falseWord
  literal := inspectBool b
  line := 0
  column := 0

omit [Platform] in
theorem boolToken_wellFormed
    (b : Bool) :
    (boolToken b).WellFormed := by
  cases b with
  | true =>
      have hWord :
          Lexeme (.ofWord (String.ofList "true".toList))
            "true".toList :=
        .word (by decide) (List.all_eq_true.mp rfl)
      exact hWord
  | false =>
      have hWord :
          Lexeme (.ofWord (String.ofList "false".toList))
            "false".toList :=
        .word (by decide) (List.all_eq_true.mp rfl)
      exact hWord

theorem boolean
    {v : Value}
    (b : Bool)
    (hBare : v.bare = .bool b) :
    ReadsBack (levels + 1) v (inspectBool b) := by
  refine ⟨?_, [boolToken b], ?_,
    writes_token (boolToken_wellFormed b) ?_⟩
  · intro depth hDepth
    obtain ⟨depth, rfl⟩ : ∃ k, depth = k + 1 :=
      Nat.exists_eq_add_one.mpr (Nat.zero_lt_of_lt hDepth)
    rw [← Value.inspect_bare, hBare, Value.inspect]
  · intro us hAlike
    rcases exists_single_of_alike hAlike with ⟨t, rfl, hToken⟩
    have hSpells :
        Spells Eq (.expression (.boolean t b) .call) [t] := by
      cases b with
      | true => exact .boolTrue hToken.1.symm rfl
      | false => exact .boolFalse hToken.1.symm rfl
    exact ⟨.boolean t b,
      Eval.GivesBack.mono (Eval.GivesBack.boolean t b hBare)
        (Nat.le_add_left 1 _),
      (Parse.ReadsAt.of_spells hSpells).mono
        (Nat.le_add_left 1 _)⟩
  · cases b <;> decide

------------------------------------------------------------
-- Arrays
------------------------------------------------------------

/- Parts that are written one by one. -/
omit [Platform] in
theorem mapM_eq_ok
    {α β ε : Type}
    {f : α → Except ε β}
    {xs : List α}
    {ys : List β}
    (h : List.Forall₂ (fun x y => f x = .ok y) xs ys) :
    xs.mapM f = .ok ys := by
  induction h with
  | nil => rfl
  | cons hFirst _ ih =>
      rw [List.mapM_cons, hFirst, ih]
      rfl

/- What stands between the brackets of an array. -/
theorem exists_elements
    {vs : List Value}
    {tss : List (List Token)}
    {inner : List Token}
    {closing : Token}
    (hRead : List.Forall₂ (ReadAs levels) vs tss)
    (hInner :
      List.Forall₂ Token.Alike
        (List.intercalate [Token.ofMark .comma ','] tss) inner)
    (hClosing : closing.kind = .rbracket) :
    ∃ es,
      List.Forall₂ (Eval.GivesBack levels) es vs ∧
        ∀ {d : Nat} {t : Token} {r : List Token} {z : Token},
          levels ≤ d →
            Parse.expressionList (Parse.expression d)
                closing.kind ⟨t :: (inner ++ closing :: r), z⟩ =
              .ok es ⟨closing :: r, z⟩ := by
  cases vs with
  | nil =>
      cases hRead
      rw [eq_nil_of_alike hInner]
      exact ⟨[], .nil, fun _ =>
        Parse.reads_noItems (Nat.zero_le _) (.inr hClosing)⟩
  | cons v vs =>
      rcases Parse.exists_separated_of_alike hRead hInner with
        ⟨e, es, hBack, hSeparated⟩
      exact ⟨e :: es, hBack.flip, fun hLevels =>
        hSeparated.expressionList hLevels (.inr hClosing)⟩

theorem array
    {vs : List Value}
    {texts : List String}
    (id : Identity)
    (h : List.Forall₂ (ReadsBack levels) vs texts) :
    ReadsBack (levels + 1) (.array id vs)
      (enclose "[" "]" texts) := by
  constructor
  · intro depth hDepth
    obtain ⟨depth, rfl⟩ : ∃ k, depth = k + 1 :=
      Nat.exists_eq_add_one.mpr (Nat.zero_lt_of_lt hDepth)
    have hParts : vs.mapM (Value.inspect depth) = .ok texts :=
      mapM_eq_ok (h.imp fun v text hPart =>
        hPart.inspect depth (Nat.le_of_succ_le_succ hDepth))
    rw [Value.inspect, hParts]
    rfl
  · rcases exists_intercalated
        (h.imp fun v text hPart => hPart.read) with
      ⟨tss, hRead, hWrites⟩
    refine ⟨.ofMark .lbracket '[' ::
      (List.intercalate [.ofMark .comma ','] tss ++
        [.ofMark .rbracket ']']), ?_, ?_⟩
    · intro us hAlike
      rcases exists_enclosed_of_alike hAlike with
        ⟨opening, inner, closing, rfl, hOpening, hInner,
          hClosing⟩
      rcases exists_elements hRead hInner hClosing.1.symm with
        ⟨es, hBack, hList⟩
      exact ⟨.array opening es,
        Eval.GivesBack.array opening id hBack,
        .array hOpening.1.symm hList hClosing.1.symm⟩
    · intro more _
      have hAll :=
        (hWrites ", " (.inr rfl)).enclosed (c := '[') (d := ']')
          (wellFormed_ofMark (c := '[') rfl) rfl rfl (by decide)
          (by decide) more
      simpa [enclose] using hAll

------------------------------------------------------------
-- Hashes
------------------------------------------------------------

/- Tokens that are read, wherever they stand, as a pair that
   gives back an entry of a hash. -/
def EntryReadAs
    (levels : Nat)
    (entry : HashKey × HashPair Value)
    (ts : List Token) : Prop :=
  ∀ us, List.Forall₂ Token.Alike ts us →
    ∃ p, Eval.EntryGivesBack levels p entry ∧
      Parse.PairReadsAt levels p us

/- The written form of an entry of a hash. -/
def inspectEntry
    (depth : Nat)
    (entry : HashKey × HashPair Value) :
    Except Failure String := do
  let key ← entry.2.key.inspect depth
  let value ← entry.2.value.inspect depth
  return key ++ ": " ++ value

/- An entry whose written form, a given text, gives it back. -/
structure EntryReadsBack
    (levels : Nat)
    (entry : HashKey × HashPair Value)
    (text : String) : Prop where
  inspect :
    ∀ depth, levels ≤ depth → inspectEntry depth entry = .ok text
  read : ∃ ts, EntryReadAs levels entry ts ∧ Writes text ts

theorem entry
    {entry : HashKey × HashPair Value}
    {key value : String}
    (hKey : ReadsBack levels entry.2.key key)
    (hValue : ReadsBack levels entry.2.value value)
    (hHashKey : entry.2.key.hashKey? = some (.ok entry.1)) :
    EntryReadsBack levels entry (key ++ ": " ++ value) := by
  constructor
  · intro depth hDepth
    rw [inspectEntry, hKey.inspect depth hDepth,
      hValue.inspect depth hDepth]
    rfl
  · rcases hKey.read with ⟨ks, hKeyRead, hKeyWrites⟩
    rcases hValue.read with ⟨vs, hValueRead, hValueWrites⟩
    refine ⟨_, ?_, .pair (.inr rfl) hKeyWrites hValueWrites⟩
    intro us hAlike
    rcases exists_append_of_alike hAlike with
      ⟨ks', rest, rfl, hKs, hRest⟩
    rcases exists_cons_of_alike hRest with
      ⟨colon, vs', rfl, hColon, hVs⟩
    rcases hKeyRead ks' hKs with ⟨k, hKeyBack, hKeyAt⟩
    rcases hValueRead vs' hVs with ⟨v, hValueBack, hValueAt⟩
    exact ⟨(k, v), ⟨hHashKey, hKeyBack, hValueBack⟩,
      ⟨ks', colon, vs', rfl, hColon.1.symm, hKeyAt, hValueAt⟩⟩

/- What stands between the braces of a hash. -/
theorem exists_pairs
    {entries : List (HashKey × HashPair Value)}
    {tss : List (List Token)}
    {inner : List Token}
    {closing : Token}
    (hRead : List.Forall₂ (EntryReadAs levels) entries tss)
    (hInner :
      List.Forall₂ Token.Alike
        (List.intercalate [Token.ofMark .comma ','] tss) inner)
    (hClosing : closing.kind = .rbrace) :
    ∃ ps,
      List.Forall₂ (Eval.EntryGivesBack levels) ps entries ∧
        ∀ {d n : Nat} {t : Token} {r : List Token} {z : Token},
          levels ≤ d → inner.length < n →
            ∃ t',
              Parse.hashPairs (Parse.expression d) n
                  ⟨t :: (inner ++ closing :: r), z⟩ =
                .ok ps ⟨t' :: closing :: r, z⟩ := by
  cases entries with
  | nil =>
      cases hRead
      rw [eq_nil_of_alike hInner]
      exact ⟨[], .nil, fun _ hRounds =>
        Parse.reads_noPairs (Nat.zero_le _) hRounds hClosing⟩
  | cons entry entries =>
      rcases Parse.exists_separated_of_alike hRead hInner with
        ⟨p, ps, hBack, hSeparated⟩
      exact ⟨p :: ps, hBack.flip, fun hLevels hRounds =>
        hSeparated.hashPairs hLevels hRounds hClosing⟩

theorem hash
    {entries : List (HashKey × HashPair Value)}
    {texts : List String}
    (id : Identity)
    (h : List.Forall₂ (EntryReadsBack levels) entries texts)
    (hKeys : (entries.map Prod.fst).Nodup) :
    ReadsBack (levels + 1) (.hash id entries)
      (enclose "\x7b" "\x7d" texts) := by
  constructor
  · intro depth hDepth
    obtain ⟨depth, rfl⟩ : ∃ k, depth = k + 1 :=
      Nat.exists_eq_add_one.mpr (Nat.zero_lt_of_lt hDepth)
    have hParts : entries.mapM (inspectEntry depth) = .ok texts :=
      mapM_eq_ok (h.imp fun entry text hPart =>
        hPart.inspect depth (Nat.le_of_succ_le_succ hDepth))
    unfold inspectEntry at hParts
    rw [Value.inspect, hParts]
    rfl
  · rcases exists_intercalated
        (h.imp fun entry text hPart => hPart.read) with
      ⟨tss, hRead, hWrites⟩
    refine ⟨.ofMark .lbrace '{' ::
      (List.intercalate [.ofMark .comma ','] tss ++
        [.ofMark .rbrace '}']), ?_, ?_⟩
    · intro us hAlike
      rcases exists_enclosed_of_alike hAlike with
        ⟨opening, inner, closing, rfl, hOpening, hInner,
          hClosing⟩
      rcases exists_pairs hRead hInner hClosing.1.symm with
        ⟨ps, hBack, hPairs⟩
      exact ⟨.hash opening ps,
        Eval.GivesBack.hash opening id hBack hKeys,
        .hash hOpening.1.symm hPairs hClosing.1.symm⟩
    · intro more _
      have hAll :=
        (hWrites ", " (.inr rfl)).enclosed (c := '{') (d := '}')
          (wellFormed_ofMark (c := '{') rfl) rfl rfl (by decide)
          (by decide) more
      simpa [enclose] using hAll

end ReadsBack

------------------------------------------------------------
-- Data
------------------------------------------------------------

/- A list of which every part is related to something. -/
omit [Platform] in
theorem exists_forall₂
    {α β : Type}
    {R : α → β → Prop}
    {xs : List α}
    (h : ∀ x ∈ xs, ∃ y, R x y) :
    ∃ ys, List.Forall₂ R xs ys := by
  induction xs with
  | nil => exact ⟨[], .nil⟩
  | cons x xs ih =>
      rcases List.forall_mem_cons.mp h with ⟨⟨y, hFirst⟩, hMore⟩
      rcases ih hMore with ⟨ys, hOthers⟩
      exact ⟨y :: ys, .cons hFirst hOthers⟩

/- Data reads back, level by level. -/
theorem Value.IsData.readsBack
    {levels : Nat}
    {v : Value}
    (h : v.IsData levels) :
    ∃ text, ReadsBack levels v text := by
  induction levels generalizing v with
  | zero => exact h.elim
  | succ levels ih =>
      cases v with
      | int n =>
          rcases h with ⟨hDigits, hSign⟩
          exact ReadsBack.exists_integer hDigits hSign
      | bool b => exact ⟨_, .boolean b rfl⟩
      | hostBool id b => exact ⟨_, .boolean b rfl⟩
      | array id elements =>
          rcases exists_forall₂ fun e hMem => ih (h e hMem) with
            ⟨texts, hTexts⟩
          exact ⟨_, .array id hTexts⟩
      | hash id entries =>
          rcases h with ⟨hKeys, hEntries⟩
          obtain ⟨texts, hTexts⟩ :
              ∃ texts,
                List.Forall₂ (ReadsBack.EntryReadsBack levels)
                  entries texts := by
            refine exists_forall₂ fun entry hMem => ?_
            rcases hEntries entry hMem with
              ⟨hHashKey, hKey, hValue⟩
            rcases ih hKey with ⟨key, hKeyBack⟩
            rcases ih hValue with ⟨value, hValueBack⟩
            exact ⟨_, hKeyBack.entry hValueBack hHashKey⟩
          exact ⟨_, .hash id hTexts hKeys⟩
      | _ => exact h.elim

/-
  Where there are as many levels for reading as data takes, and
  two more for evaluation, running its written form, in any scope
  and on any machine, gives a value that is built alike: the same
  integers and booleans, in the same order, and the same entries
  under the same keys.  So it has the same written form.
-/
theorem run_inspect
    {levels : Nat}
    {v : Value}
    (h : v.IsData levels)
    (hNesting : levels ≤ Platform.nestingLimit)
    (hRecursion : levels + 2 ≤ Platform.recursionLimit)
    (scope : ScopeId)
    (m : Machine) :
    ∃ text w after,
      (∀ depth, levels ≤ depth → v.inspect depth = .ok text) ∧
        run text scope m = .ok w after ∧
        w.bare = v.bare ∧
        ∀ depth, w.inspect depth = v.inspect depth := by
  rcases h.readsBack with ⟨text, hInspect, ts, hRead, hWrites⟩
  rcases hRead (bodyTokens text) hWrites.bodyTokens with
    ⟨e, hBack, hReads⟩
  rcases parseWithin_of_readsAt hReads hNesting with
    ⟨first, hParse⟩
  rcases Eval.GivesBack.program first hBack scope m hRecursion with
    ⟨w, after, hEvaluate, hBare, -⟩
  refine ⟨text, w, after, hInspect, ?_, hBare,
    Value.inspect_eq_of_bare hBare⟩
  have hRun : evaluate _ scope m = .ok w after := hEvaluate
  rw [run_of_parse hParse, Eval.toRun, hRun]

/- A hash with a negative key, an array, and a hash without
   entries in it. -/
omit [Platform] in
theorem run_inspect_hash :
    letI := Platform.usual
    let v : Value :=
      .hash 0
        [(⟨.integer, -1⟩,
            ⟨.int (-1), .array 1 [.bool true, .int 2]⟩),
          (Value.boolKey false, ⟨.bool false, .hash 2 []⟩)]
    v.IsData 3 ∧
      ∃ w after,
        run "\x7b-1: [true, 2], false: \x7b\x7d\x7d" Machine.root
            .new =
          .ok w after ∧
          w.bare = v.bare := by
  let := Platform.usual
  intro v
  have hShort : ∀ n : Nat, n ≤ 2 → n < Nat.pow 10 digitLimit :=
    fun n hSmall => Nat.lt_of_le_of_lt hSmall (by decide +kernel)
  have hArray :
      (Value.array 1 [.bool true, .int 2]).IsData 2 := by
    refine List.forall_mem_cons.mpr ⟨trivial, ?_⟩
    exact List.forall_mem_singleton.mpr
      ⟨hShort 2 (by decide), by decide⟩
  have hData : v.IsData 3 := by
    refine ⟨by decide, List.forall_mem_cons.mpr ⟨?_, ?_⟩⟩
    · exact ⟨rfl, ⟨hShort 1 (by decide), by decide⟩, hArray⟩
    · exact List.forall_mem_singleton.mpr
        ⟨rfl, trivial, List.nodup_nil, nofun⟩
  have hNesting : 3 ≤ Platform.usual.nestingLimit := by decide
  have hRecursion : 5 ≤ Platform.usual.recursionLimit := by decide
  rcases run_inspect hData hNesting hRecursion Machine.root
      .new with
    ⟨text, w, after, hInspect, hRun, hBare, -⟩
  have hText :
      v.inspect 3 =
        .ok "\x7b-1: [true, 2], false: \x7b\x7d\x7d" := by
    decide +kernel
  rw [hInspect 3 (Nat.le_refl 3)] at hText
  cases hText
  exact ⟨hData, w, after, hRun, hBare⟩

end Monkey
