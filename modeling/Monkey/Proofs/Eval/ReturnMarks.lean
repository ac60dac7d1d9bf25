import Monkey.Proofs.Eval.Keeps
import Monkey.Proofs.Machine.Reaches
import Monkey.Proofs.Parse.Soundness
import Monkey.Session.Submission

/-
  Where return marks go.

  A return mark is for leaving blocks, functions, and programs.
  But a conditional is an expression, and so a part that is to
  be stored can give one as well.  That is the only way for a
  mark to get into a binding, an array, a hash, or the result of
  a run.

  Main declarations:
    * `Event.StoresMark`
    * `run_unmarked`
    * `marks_escape`
-/

namespace Monkey

------------------------------------------------------------
-- Marks
------------------------------------------------------------

namespace Value

/- A return mark. -/
def IsMark (v : Value) : Prop :=
  ∃ id w, v = .returned id w

/- No return mark is in a value. -/
def Unmarked (v : Value) : Prop :=
  v.Within fun x => ¬ x.IsMark

/- Marks are not made in any other way than by returning. -/
theorem allows_not_isMark :
    Allows (fun v => ¬ v.IsMark) (fun _ => True) fun _ => True
    where
  int _ := nofun
  bool _ := nofun
  null := nofun
  str _ := nofun
  builtin _ := nofun
  array _ _ := nofun
  hash _ _ := nofun
  function _ _ _ _ := ⟨fun _ => ⟨trivial, trivial⟩, fun _ => nofun⟩

/- Nothing is inside an error. -/
theorem Storable.unmarked
    {ok : Value → Prop}
    {v : Value}
    (h : v.Storable ok)
    (hOk : ∀ x, ok x → ¬ x.IsMark) :
    v.Unmarked := by
  rcases h with hError | hWithin
  · cases v with
    | error id message => exact IsFlat.within trivial nofun
    | _ => cases hError
  · exact fun x hInside => hOk x (hWithin x hInside)

end Value

/- A part gives a return mark that is to be stored. -/
def Event.StoresMark (e : Event) : Prop :=
  ∃ parent part scope id v m,
    e = .yields parent part scope (.returned id v) m ∧
      parent.Stores part

namespace Event

/- A check for that, which takes all parts of nodes that store
   some for stored. -/
def mayStoreMark : Event → Bool
  | yields parent _ _ (.returned _ _) _ =>
      match parent with
      | .letStmt _ _ _ => true
      | .returnStmt _ _ => true
      | .call _ _ _ => true
      | .array _ _ => true
      | .hash _ _ => true
      | _ => false
  | _ => false

theorem not_storesMark_of_check
    {e : Event}
    (h : e.mayStoreMark = false) :
    ¬ e.StoresMark := by
  rintro ⟨parent, part, scope, id, v, m, rfl, hStores⟩
  cases parent with
  | letStmt | returnStmt | call | array | hash => cases h
  | _ => exact hStores.elim

end Event

/- Without a return mark to store, an event fits. -/
theorem Event.fits_of_not_storesMark
    {ok : Value → Prop}
    {e : Event}
    (h : ¬ e.StoresMark) :
    e.Fits ok := by
  intro parent part scope id v m hEvent hStores
  exact absurd ⟨parent, part, scope, id, v, m, hEvent, hStores⟩ h

------------------------------------------------------------
-- Runs
------------------------------------------------------------

theorem Eval.eq_ok_of_toRun
    {α : Type}
    {x : Eval α}
    {m m' : Machine}
    {a : α}
    (h : x.toRun m = .ok a m') :
    x m = .ok a m' := by
  unfold Eval.toRun at h
  cases hResult : x m with
  | ok b after =>
      rw [hResult] at h
      cases h
      rfl
  | error f after =>
      rw [hResult] at h
      cases h

/- The log of a run. -/
def runLog
    [Platform]
    (source : String)
    (scope : ScopeId)
    (m : Machine) : List Event :=
  match parse source with
  | .ok p => (Eval.evaluateLogged Platform.recursionLimit p scope m).1
  | .error _ => []

/-
  A run from where no return mark can be reached, in which no
  part that is to be stored gives one, has a result without
  return marks.  None is bound in any scope that could be
  reached or that the run has made.
-/
theorem run_unmarked
    [Platform]
    (source : String)
    (scope : ScopeId)
    (m m' : Machine)
    (v : Value)
    (hReach :
      ∀ id, m.Reaches scope id →
        ∀ entry ∈ m.bindings id, entry.2.Unmarked)
    (hStored : ∀ e ∈ runLog source scope m, ¬ e.StoresMark)
    (hRun : run source scope m = .ok v m') :
    v.Unmarked ∧
      ∀ id, m.Reaches scope id ∨ m.scopes.size ≤ id →
        ∀ entry ∈ m'.bindings id, entry.2.Unmarked := by
  unfold runLog at hStored
  unfold run at hRun
  cases hParse : parse source with
  | error f =>
      rw [hParse] at hRun
      cases hRun
  | ok p =>
      simp only [hParse] at hStored hRun
      obtain ⟨body, rfl⟩ : ∃ body, p = .program body := by
        cases spells_of_parseWithin hParse with
        | program => exact ⟨_, rfl⟩
      have hResult :
          (Eval.evaluateLogged Platform.recursionLimit (.program body)
            scope m).2 = .ok v m' := by
        change (Eval.evaluateLogged _ _ _).result m = _
        rw [Eval.evaluateLogged_result]
        exact Eval.eq_ok_of_toRun hRun
      have hKept :=
        Logged.keeps_program
          (Value.allows_not_isMark.confined (m.Region scope))
          Platform.recursionLimit body (.inl .start) m
          (Machine.holds_of_reaches hReach) fun e hMem =>
            Event.fits_of_not_storesMark (hStored e hMem)
      rw [hResult] at hKept
      rcases hKept with ⟨hHolds, hStorable⟩
      refine ⟨hStorable.unmarked fun x h => h.1, ?_⟩
      intro id hId entry hEntry x hInside
      exact (hHolds.values id hId entry hEntry x hInside).1

/- A return out of a conditional stores no mark. -/
theorem run_unmarked_conditional :
    letI := Platform.usual
    ∃ m',
      run "let x = 1; if (x < 2) { return [x] }; 3"
          Machine.root .new = .ok (.array 0 [.int 1]) m' ∧
        (Value.array 0 [.int 1]).Unmarked ∧
        ∀ entry ∈ m'.bindings Machine.root,
          entry.2.Unmarked := by
  let := Platform.usual
  have hRun :
      run "let x = 1; if (x < 2) { return [x] }; 3"
          Machine.root .new =
        .ok (.array 0 [.int 1])
          ⟨#[⟨none, [("x", .int 1)]⟩], "", 2⟩ := by
    rfl
  have hCheck :
      (runLog "let x = 1; if (x < 2) { return [x] }; 3"
        Machine.root .new).all (!·.mayStoreMark) = true := by
    rfl
  have hNothing : ∀ id, Machine.new.bindings id = [] := by
    intro id
    cases id <;> rfl
  rcases run_unmarked _ Machine.root .new _ _
      (fun id _ => by simp [hNothing])
      (fun e hMem => Event.not_storesMark_of_check
        (by simpa using List.all_eq_true.mp hCheck e hMem))
      hRun with ⟨hResult, hBindings⟩
  exact ⟨_, hRun, hResult, hBindings _ (.inl .start)⟩

------------------------------------------------------------
-- Escapes
------------------------------------------------------------

variable [Platform]

/- Running a text on a new machine leaves a return mark in the
   result or in a binding. -/
def LeavesMark (source : String) : Prop :=
  ∃ v m',
    run source Machine.root .new = .ok v m' ∧
      (¬ v.Unmarked ∨
        ∃ id, ∃ entry ∈ m'.bindings id, ¬ entry.2.Unmarked)

/- A mark can escape through each kind of part that is
   stored. -/
omit [Platform] in
theorem marks_escape :
    letI := Platform.usual
    LeavesMark "let x = if (true) { return 1 };" ∧
      LeavesMark "return if (true) { return 1 };" ∧
      LeavesMark "fn(a) { 2 }(if (true) { return 1 })" ∧
      LeavesMark "[if (true) { return 1 }, 2]" ∧
      LeavesMark "{1: if (true) { return 2 }}" := by
  let := Platform.usual
  have hMark :
      ∀ (v : Value) (id : Identity) (w : Value),
        v.Contains (.returned id w) → ¬ v.Unmarked :=
    fun v id w hInside h => h _ hInside ⟨id, w, rfl⟩
  refine ⟨?_, ?_, ?_, ?_, ?_⟩
  · refine ⟨.null,
      ⟨#[⟨none, [("x", .returned 0 (.int 1))]⟩], "", 1⟩,
      rfl, .inr ⟨0, _, List.mem_singleton.mpr rfl, ?_⟩⟩
    exact hMark _ 0 (.int 1) (.self _)
  · refine ⟨.returned 0 (.int 1), ⟨#[⟨none, []⟩], "", 2⟩,
      rfl, .inl ?_⟩
    exact hMark _ 0 (.int 1) (.self _)
  · refine ⟨.int 2,
      ⟨#[⟨none, []⟩,
        ⟨some 0, [("a", .returned 1 (.int 1))]⟩], "", 2⟩,
      rfl, .inr ⟨1, _, List.mem_singleton.mpr rfl, ?_⟩⟩
    exact hMark _ 1 (.int 1) (.self _)
  · refine ⟨.array 1 [.returned 0 (.int 1), .int 2],
      ⟨#[⟨none, []⟩], "", 2⟩, rfl, .inl ?_⟩
    exact hMark _ 0 (.int 1)
      (.element (List.mem_cons_self ..) (.self _))
  · refine ⟨.hash 1
        [(⟨.integer, 1⟩, ⟨.int 1, .returned 0 (.int 2)⟩)],
      ⟨#[⟨none, []⟩], "", 2⟩, rfl, .inl ?_⟩
    exact hMark _ 0 (.int 2)
      (.value (List.mem_singleton.mpr rfl) (.self _))

end Monkey
