import Monkey.Parse.Grammar
import Monkey.Proofs.Eval.Checked
import Monkey.Proofs.Eval.Keeps
import Monkey.Proofs.Value.Written

/-
  No internal failure.

  Programs are known nodes, and what they make is native.  So,
  on a machine with native values only, evaluation of a program
  ends with a value or where nesting is too deep, or else `puts`
  is given what cannot be written or printed, or a text that
  cannot be encoded is to be a key.  It never ends at an unknown
  node or an object without a written form.

  Main declarations:
    * `Machine.Produced`
    * `SafelyEnds`
    * `evaluate_safelyEnds`
    * `evaluate_unencodable`
-/

namespace Monkey

------------------------------------------------------------
-- Machines of Programs
------------------------------------------------------------

variable [Platform]

namespace Machine

/-
  The machines that come from evaluations of programs, each with
  values that these have given.  Values may be taken out of
  others and out of scopes, and they may be bound in any scope.
  An evaluation that fails leaves a machine as well.
-/
inductive Produced : Machine → List Value → Prop
  | new : Produced .new []
  | scope
      {m : Machine}
      {vs : List Value}
      {outer : Option ScopeId}
      (hBefore : Produced m vs)
      (hOuter : ∀ id ∈ outer, id < m.scopes.size) :
      Produced
        { m with scopes := m.scopes.push (.empty outer) } vs
  | value
      {m m' : Machine}
      {vs : List Value}
      {limit depth : Nat}
      {source : String}
      {p : Node}
      {scope : ScopeId}
      {v : Value}
      (hBefore : Produced m vs)
      (hParse : parseWithin limit source = .ok p)
      (hEval :
        Eval.evaluateWithin depth p scope m = .ok v m') :
      Produced m' (v :: vs)
  | failure
      {m m' : Machine}
      {vs : List Value}
      {limit depth : Nat}
      {source : String}
      {p : Node}
      {scope : ScopeId}
      {f : Failure}
      (hBefore : Produced m vs)
      (hParse : parseWithin limit source = .ok p)
      (hEval :
        Eval.evaluateWithin depth p scope m = .error f m') :
      Produced m' vs
  | inside
      {m : Machine}
      {vs : List Value}
      {v x : Value}
      (hBefore : Produced m vs)
      (hValue : v ∈ vs)
      (hInside : v.Contains x) :
      Produced m (x :: vs)
  | bound
      {m : Machine}
      {vs : List Value}
      {id : ScopeId}
      {entry : String × Value}
      (hBefore : Produced m vs)
      (hEntry : entry ∈ m.bindings id) :
      Produced m (entry.2 :: vs)
  | define
      {m : Machine}
      {vs : List Value}
      {v : Value}
      (hBefore : Produced m vs)
      (hValue : v ∈ vs)
      (id : ScopeId)
      (name : String) :
      Produced
        { m with
          scopes := m.scopes.modify id (·.define name v) } vs
  | clearOutput
      {m : Machine}
      {vs : List Value}
      (hBefore : Produced m vs) :
      Produced m.clearOutput vs

end Machine

------------------------------------------------------------
-- Safe Ends
------------------------------------------------------------

/- By a log, `puts` is called with an argument of a kind. -/
def Puts
    (log : List Event)
    (kind : Value → Prop) : Prop :=
  ∃ t callee args scope m,
    .yields (.call t callee args) callee scope (.builtin .puts)
        m ∈ log ∧
      ∃ arg ∈ args, ∃ v m',
        .yields (.call t callee args) arg scope v m' ∈ log ∧
          kind v

/- A value whose written form cannot be printed. -/
def Value.Unprintable (v : Value) : Prop :=
  ∃ depth text,
    v.inspect depth = .ok text ∧
      Builtin.isPrintable text = false

/- By a log, a text is to be the key of a pair or the subscript of
   an index. -/
def AsksKey
    (log : List Event)
    (text : String) : Prop :=
  ∃ parent part scope m,
    .yields parent part scope (.str text) m ∈ log ∧
      parent.Keys part

/- How an evaluation with a given log may end. -/
inductive SafelyEnds (log : List Event) :
    EStateM.Result Failure Machine Value → Prop
  | value
      {v : Value}
      {m : Machine}
      (hNative : v.Within Value.Native) :
      SafelyEnds log (.ok v m)
  | tooDeep
      {m : Machine} :
      SafelyEnds log (.error .tooDeep m)
  | longInteger
      {m : Machine}
      (hPuts : Puts log fun v => ¬ v.Short) :
      SafelyEnds log (.error .longInteger m)
  | unprintable
      {m : Machine}
      (hPuts : Puts log Value.Unprintable) :
      SafelyEnds log (.error .unprintable m)
  | unencodable
      {m : Machine}
      {text : String}
      (hKey : AsksKey log text)
      (hText : isEncodable text = false) :
      SafelyEnds log (.error (.unencodable text) m)

/- The regime of native values, known nodes, and safe ends. -/
def safety (log : List Event) : Regime where
  ok := Value.Native
  inside _ := True
  code := Node.Known
  stop f := ∀ m, SafelyEnds log (.error f m)

/- A native value that cannot be written is nested too deeply or
   has a long integer inside. -/
omit [Platform] in
theorem Value.inspect_error_of_native
    {depth : Nat}
    {v : Value}
    {f : Failure}
    (hNative : v.Within Value.Native)
    (h : v.inspect depth = .error f) :
    f = .tooDeep ∨ f = .longInteger ∧ ¬ v.Short := by
  cases Value.inspect_error h with
  | tooDeep => exact .inl rfl
  | longInteger hInside hLong =>
      exact .inr ⟨rfl, fun hShort => hShort _ hInside hLong⟩
  | unwritable hInside hForm =>
      exact absurd (hNative _ hInside) hForm

/- A native value that makes no line cannot be written or cannot
   be printed. -/
theorem Value.lineFor_error_of_native
    {depth : Nat}
    {v : Value}
    {f : Failure}
    (hNative : v.Within Value.Native)
    (h : Builtin.lineFor depth v = .error f) :
    f = .tooDeep ∨ f = .longInteger ∧ ¬ v.Short ∨
      f = .unprintable ∧ v.Unprintable := by
  rcases exists_of_bind_error h with hText | ⟨text, hText, hLine⟩
  · rcases inspect_error_of_native hNative hText with
      hDeep | hLong
    · exact .inl hDeep
    · exact .inr (.inl hLong)
  · unfold Builtin.asLine at hLine
    split at hLine
    · cases hLine
    · next hPrints =>
        cases hLine
        exact .inr (.inr
          ⟨rfl, depth, text, hText, Bool.eq_false_iff.mpr hPrints⟩)

/- A key that cannot be made is that of a text that cannot be
   encoded. -/
theorem Value.hashKey?_error
    {v : Value}
    {f : Failure}
    (h : v.hashKey? = some (.error f)) :
    ∃ text,
      v = .str text ∧ isEncodable text = false ∧
        f = .unencodable text := by
  cases v with
  | str text =>
      rw [hashKey?, textKey, hashText] at h
      by_cases hText : isEncodable text = true
      · rw [if_pos hText] at h
        cases h
      · rw [if_neg hText] at h
        cases h
        exact ⟨text, rfl, Bool.eq_false_iff.mpr hText, rfl⟩
  | _ => cases h

/- Evaluation keeps to safety by what its own log shows. -/
theorem safety_suits
    (log : List Event) :
    (safety log).Suits (· ∈ log) where
  allows := Value.allows_native
  parts _ hKnown _ hPart := hKnown.part hPart
  marks _ _ _ _ _ _ _ _ _ _ := trivial
  tooDeep _ := .tooDeep
  foreign hKnown := absurd hKnown Node.not_known_foreign
  keys := by
    intro parent part scope v m f hYields hKeys hError after
    rcases Value.hashKey?_error hError with
      ⟨text, rfl, hText, rfl⟩
    exact .unencodable ⟨parent, part, scope, m, hYields, hKeys⟩
      hText
  prints := by
    intro t callee args scope m arg v m' depth f hCallee hArg
      hYields hNative hError after
    have hPuts :
        ∀ kind : Value → Prop, kind v → Puts log kind :=
      fun kind hKind => ⟨t, callee, args, scope, m, hCallee, arg,
        hArg, v, m', hYields, hKind⟩
    rcases Value.lineFor_error_of_native hNative hError with
      rfl | ⟨rfl, hLong⟩ | ⟨rfl, hPrints⟩
    · exact .tooDeep
    · exact .longInteger (hPuts _ hLong)
    · exact .unprintable (hPuts _ hPrints)

/- What evaluation gives is native, marks and errors
   included. -/
omit [Platform] in
theorem Value.Carried.native
    {v : Value}
    (h : v.Carried Value.Native) :
    v.Within Value.Native := by
  rcases h with (hError | hWithin) | ⟨id, w, rfl, hWithin⟩
  · cases v with
    | error id message => exact IsFlat.within trivial trivial
    | _ => cases hError
  · exact hWithin
  · exact within_returned.mpr ⟨trivial, hWithin⟩

/- The evaluation of a known node, on a machine with native
   values, is safe. -/
theorem lands_safety
    {m : Machine}
    {p : Node}
    {depth : Nat}
    {scope : ScopeId}
    {result : EStateM.Result Failure Machine Value}
    (hNative : m.Holds Value.Native fun _ => True)
    (hKnown : p.Known)
    (hEval : Eval.evaluateWithin depth p scope m = result) :
    Lands (safety (Eval.evaluateLogged depth p scope m).1)
      (Value.Within Value.Native) result := by
  have hCarried :
      Lands (safety (Eval.evaluateLogged depth p scope m).1)
        (Value.Carried Value.Native)
        (Eval.evaluateLogged depth p scope m).2 :=
    Logged.keeps_evaluateLogged (safety_suits _) depth hKnown
      trivial m hNative fun _ hMem => hMem
  have hResult :
      (Eval.evaluateLogged depth p scope m).2 = result := by
    rw [← hEval, ← Eval.evaluateLogged_result]
    rfl
  rw [← hResult]
  exact hCarried.mono fun v h => h.native

------------------------------------------------------------
-- Native Machines
------------------------------------------------------------

/- Programs make native values only. -/
theorem Machine.Produced.native
    {m : Machine}
    {vs : List Value}
    (h : m.Produced vs) :
    (m.Holds Value.Native fun _ => True) ∧
      ∀ v ∈ vs, v.Within Value.Native := by
  induction h with
  | new => exact ⟨holds_new, nofun⟩
  | scope _ _ ih =>
      rcases ih with ⟨hNative, hValues⟩
      exact ⟨hNative.newScope fun _ _ => trivial, hValues⟩
  | value _ hParse hEval ih =>
      rcases ih with ⟨hNative, hValues⟩
      rcases lands_safety hNative (known_of_parseWithin hParse)
        hEval with ⟨hAfter, hResult⟩
      exact ⟨hAfter, List.forall_mem_cons.mpr
        ⟨hResult, hValues⟩⟩
  | failure _ hParse hEval ih =>
      rcases ih with ⟨hNative, hValues⟩
      rcases lands_safety hNative (known_of_parseWithin hParse)
        hEval with ⟨hAfter, -⟩
      exact ⟨hAfter, hValues⟩
  | inside _ hValue hInside ih =>
      rcases ih with ⟨hNative, hValues⟩
      refine ⟨hNative, List.forall_mem_cons.mpr
        ⟨fun x hDeeper => ?_, hValues⟩⟩
      exact hValues _ hValue x (hInside.trans hDeeper)
  | bound _ hEntry ih =>
      rcases ih with ⟨hNative, hValues⟩
      exact ⟨hNative, List.forall_mem_cons.mpr
        ⟨hNative.values _ trivial _ hEntry, hValues⟩⟩
  | define _ hValue id name ih =>
      rcases ih with ⟨hNative, hValues⟩
      exact ⟨hNative.define id name (hValues _ hValue), hValues⟩
  | clearOutput _ ih =>
      rcases ih with ⟨hNative, hValues⟩
      exact ⟨⟨hNative.values, hNative.outer, hNative.fresh⟩,
        hValues⟩

------------------------------------------------------------
-- Programs
------------------------------------------------------------

/-
  On a machine that comes from programs, a program that the
  parser gives ends with a native value, where nesting is too
  deep, where `puts` meets an integer that is too long or a text
  that cannot be printed, or where a text that cannot be encoded
  is to be a key.  It comes to the same if operations can be
  refused: none is.
-/
theorem evaluate_safelyEnds
    {m : Machine}
    {vs : List Value}
    {limit : Nat}
    {source : String}
    {p : Node}
    (hProduced : m.Produced vs)
    (hParse : parseWithin limit source = .ok p)
    (depth : Nat)
    (scope : ScopeId) :
    SafelyEnds (Eval.evaluateLogged depth p scope m).1
        (Eval.evaluateWithin depth p scope m) ∧
      Eval.evaluateChecked depth p scope m =
        Checked.lift (Eval.evaluateWithin depth p scope) m := by
  refine ⟨?_, by rw [Eval.evaluateChecked_eq]⟩
  have hKnown := known_of_parseWithin hParse
  cases hEval : Eval.evaluateWithin depth p scope m with
  | ok v after =>
      rcases lands_safety hProduced.native.1 hKnown hEval with
        ⟨-, hResult⟩
      exact .value hResult
  | error f after =>
      rcases lands_safety hProduced.native.1 hKnown hEval with
        ⟨-, hSafe⟩
      exact hSafe after

/- A function from an earlier program that divides by zero,
   called for an argument that is to be an array. -/
omit [Platform] in
theorem evaluate_safelyEnds_earlier :
    letI := Platform.usual
    ∃ m p,
      m.Produced [.null] ∧
        parseWithin 20 "first(half(1))" = .ok p ∧
        SafelyEnds
          (Eval.evaluateLogged 20 p Machine.root m).1
          (Eval.evaluateWithin 20 p Machine.root m) ∧
        Eval.evaluateChecked 20 p Machine.root m =
          Checked.lift (Eval.evaluateWithin 20 p Machine.root)
            m := by
  let := Platform.usual
  obtain ⟨earlier, hEarlier⟩ :
      ∃ p, parseWithin 20 "let half = fn(x) \x7b x / 0 \x7d;" =
        .ok p :=
    ⟨_, rfl⟩
  obtain ⟨p, hParse⟩ :
      ∃ p, parseWithin 20 "first(half(1))" = .ok p :=
    ⟨_, rfl⟩
  obtain ⟨m, hEval⟩ :
      ∃ m, Eval.evaluateWithin 20 earlier Machine.root .new =
        .ok .null m := by
    cases hEarlier
    exact ⟨_, rfl⟩
  have hProduced : m.Produced [.null] :=
    .value .new hEarlier hEval
  exact ⟨m, p, hProduced, hParse,
    evaluate_safelyEnds hProduced hParse 20 Machine.root⟩

------------------------------------------------------------
-- A Key That Cannot Be Encoded
------------------------------------------------------------

/- A computation ends in a failure. -/
def failsWith
    {α : Type}
    (f : Failure) :
    EStateM.Result Failure Machine α → Bool
  | .ok _ _ => false
  | .error g _ => g == f

omit [Platform] in
theorem exists_of_failsWith
    {α : Type}
    {f : Failure}
    {result : EStateM.Result Failure Machine α}
    (h : failsWith f result = true) :
    ∃ after, result = .error f after := by
  cases result with
  | ok v after => cases h
  | error g after =>
      have hEq : g = f := by simpa [failsWith] using h
      rw [hEq]
      exact ⟨after, rfl⟩

/- A text is a program that fails on a new machine. -/
def failsFirst
    (source : String)
    (f : Failure) :
    Bool :=
  match parse source with
  | .ok p => failsWith f (evaluate p Machine.root .new)
  | .error _ => false

theorem exists_of_failsFirst
    {source : String}
    {f : Failure}
    (h : failsFirst source f = true) :
    ∃ p after,
      parse source = .ok p ∧
        evaluate p Machine.root .new = .error f after := by
  unfold failsFirst at h
  split at h
  · next p hParse =>
      rcases exists_of_failsWith h with ⟨after, hEval⟩
      exact ⟨p, after, hParse, hEval⟩
  · cases h

/- A program whose evaluation ends neither with a value nor for
   want of levels, and nothing is printed: a key of it is half of
   a surrogate pair. -/
omit [Platform] in
theorem evaluate_unencodable :
    letI := Platform.usual
    let lone := String.singleton (Platform.half 0xDCFF)
    Machine.new.Produced [] ∧
      ∃ p after,
        parse ("\x7b\"" ++ lone ++ "\": 1\x7d; 5") = .ok p ∧
          evaluate p Machine.root .new =
            .error (.unencodable lone) after := by
  let := Platform.usual
  intro lone
  exact ⟨.new, exists_of_failsFirst (by decide +kernel)⟩

end Monkey
