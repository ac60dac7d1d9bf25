import Monkey.Proofs.Eval.Likeness
import Monkey.Proofs.Eval.Watched

/-
  Likenesses at every moment.

  An evaluation whose history is kept, beside another one: at each
  moment of the former, everything there is to see stands for
  something at some stage.  So what a likeness says of a machine
  and of values by themselves holds not only at the end, but all
  the time.

  Main declarations:
    * `Sight.Stands`
    * `Watched.likeness`
    * `Likeness.Respected.sights_stand`
-/

namespace Monkey

variable {W : Type}

------------------------------------------------------------
-- Moments of a Stage
------------------------------------------------------------

/- Everything there is to see at a moment stands for something,
   at one stage. -/
structure Sight.Stands
    (L : Likeness W)
    (w : W)
    (sight : Sight) : Prop where
  machine : ∃ m', L.machines w sight.machine m'
  given : ∀ v ∈ sight.given, ∃ v', L.values w v v'
  passed : ∀ v ∈ sight.passed, ∃ v', L.values w v v'

theorem Sight.between_stands
    {L : Likeness W}
    {w : W}
    {m m' : Machine}
    (hMachine : L.machines w m m') :
    (Sight.between m).Stands L w where
  machine := ⟨m', hMachine⟩
  given := nofun
  passed := nofun

variable [Preorder W]

/-
  A history up to a machine that stands for another one.  Its
  moments are of stages since a first one.
-/
structure History.Stands
    (L : Likeness W)
    (first w : W)
    (h : History)
    (m' : Machine) : Prop where
  begun : first ≤ w
  machine : L.machines w h.machine m'
  sights :
    ∀ sight ∈ h.sights, ∃ w₁, first ≤ w₁ ∧ sight.Stands L w₁

variable {L : Likeness W}
variable {first w : W}

namespace History

variable {h : History}
variable {m' : Machine}

theorem start_stands
    {m : Machine}
    (hMachine : L.machines w m m') :
    (start m).Stands L w w m' where
  begun := le_refl w
  machine := hMachine
  sights := by
    intro sight hMem
    rw [List.mem_singleton.mp hMem]
    exact ⟨w, le_refl w, Sight.between_stands hMachine⟩

theorem Stands.reach
    (hStands : h.Stands L first w m')
    {later : W}
    (hLater : w ≤ later)
    {m₁ m₁' : Machine}
    (hMachine : L.machines later m₁ m₁') :
    (h.reach m₁).Stands L first later m₁' where
  begun := hStands.begun.trans hLater
  machine := hMachine
  sights := by
    intro sight hMem
    rcases List.mem_append.mp hMem with hBefore | hNow
    · exact hStands.sights sight hBefore
    · rw [List.mem_singleton.mp hNow]
      exact ⟨later, hStands.begun.trans hLater,
        Sight.between_stands hMachine⟩

theorem Stands.note
    (hStands : h.Stands L first w m')
    {given : Option Value}
    {passed : List Value}
    (hGiven : ∀ v ∈ given, ∃ v', L.values w v v')
    (hPassed : ∀ v ∈ passed, ∃ v', L.values w v v') :
    (h.note given passed).Stands L first w m' where
  begun := hStands.begun
  machine := hStands.machine
  sights := by
    intro sight hMem
    rcases List.mem_append.mp hMem with hBefore | hNow
    · exact hStands.sights sight hBefore
    · rw [List.mem_singleton.mp hNow]
      exact ⟨w, hStands.begun,
        ⟨m', hStands.machine⟩, hGiven, hPassed⟩

end History

------------------------------------------------------------
-- Watched Computations Beside Others
------------------------------------------------------------

namespace Watched

variable {α β : Type}

/- A result with a history, and one that it stands for: the same
   failure or results that do so. -/
def Meets
    (L : Likeness W)
    (first w : W)
    (good : W → α → β → Prop) :
    EStateM.Result Failure History α →
      EStateM.Result Failure Machine β → Prop
  | .ok a h, .ok b m' =>
      ∃ w', w ≤ w' ∧ h.Stands L first w' m' ∧ good w' a b
  | .error f h, .error f' m' =>
      f = f' ∧ ∃ w', w ≤ w' ∧ h.Stands L first w' m'
  | _, _ => False

theorem Meets.mono
    {good : W → α → β → Prop}
    {r : EStateM.Result Failure History α}
    {r' : EStateM.Result Failure Machine β}
    {later : W}
    (h : Meets L first later good r r')
    (hLater : w ≤ later) :
    Meets L first w good r r' := by
  cases r with
  | ok a history =>
      cases r' with
      | ok b m' =>
          rcases h with ⟨w', hStage, hRest⟩
          exact ⟨w', hLater.trans hStage, hRest⟩
      | error f' m' => exact h.elim
  | error f history =>
      cases r' with
      | ok b m' => exact h.elim
      | error f' m' =>
          rcases h with ⟨hSame, w', hStage, hStands⟩
          exact ⟨hSame, w', hLater.trans hStage, hStands⟩

/- All moments up to a result are of some stage. -/
theorem Meets.sights
    {good : W → α → β → Prop}
    {r : EStateM.Result Failure History α}
    {r' : EStateM.Result Failure Machine β}
    (h : Meets L first w good r r') :
    ∀ sight ∈ (historyOf r).sights,
      ∃ w₁, first ≤ w₁ ∧ sight.Stands L w₁ := by
  cases r <;> cases r'
  case ok.ok =>
    rcases h with ⟨w', -, hStands, -⟩
    exact hStands.sights
  case error.error =>
    rcases h with ⟨-, w', -, hStands⟩
    exact hStands.sights
  all_goals exact h.elim

/- The last moment is as well. -/
theorem Meets.final
    {r : EStateM.Result Failure History Value}
    {r' : EStateM.Result Failure Machine Value}
    (h : Meets L first w L.values r r') :
    ∃ w₁, first ≤ w₁ ∧ (Sight.final (erase r)).Stands L w₁ := by
  cases r <;> cases r'
  case ok.ok v last v' m' =>
    rcases h with ⟨w', -, hStands, hValue⟩
    refine ⟨w', hStands.begun, ⟨m', hStands.machine⟩, ?_, nofun⟩
    rintro _ ⟨⟩
    exact ⟨v', hValue⟩
  case error.error =>
    rcases h with ⟨-, w', -, hStands⟩
    exact ⟨w', hStands.begun,
      Sight.between_stands hStands.machine⟩
  all_goals exact h.elim

/- From a stage on, a computation takes histories to such ones,
   beside another computation on machines. -/
def Relates
    (L : Likeness W)
    (first w : W)
    (good : W → α → β → Prop)
    (x : Watched α)
    (y : Eval β) : Prop :=
  ∀ w₁, w ≤ w₁ → ∀ h m', h.Stands L first w₁ m' →
    Meets L first w₁ good (x h) (y m')

/- The history of one evaluation is kept beside another one. -/
def likeness
    (L : Likeness W)
    (first : W) :
    L.Logic Watched Eval where
  rel := Relates L first
  pure hGood w₁ hStage _ _ hStands :=
    ⟨w₁, le_refl w₁, hStands, hGood w₁ hStage⟩
  bind := by
    intro α β γ δ w good good' x y f g hx hf w₁ hStage h m' hStands
    have hFirst := hx w₁ hStage h m' hStands
    change Meets L first w₁ good' (EStateM.bind x f h)
      (EStateM.bind y g m')
    unfold EStateM.bind
    cases hLeft : x h <;> cases hRight : y m'
    all_goals rw [hLeft, hRight] at hFirst
    case ok.ok a h₁ b m₁' =>
      rcases hFirst with ⟨w₂, hLater, hStands₁, hGood⟩
      exact (hf w₂ (hStage.trans hLater) a b hGood w₂
        (le_refl w₂) h₁ m₁' hStands₁).mono hLater
    case error.error => exact hFirst
    all_goals exact hFirst.elim
  lift := by
    intro α β w good x y hx w₁ hStage h m' hStands
    have hLands := hx w₁ hStage h.machine m' hStands.machine
    change Meets L first w₁ good (record h (x h.machine)) (y m')
    cases hLeft : x h.machine <;> cases hRight : y m'
    all_goals rw [hLeft, hRight] at hLands
    case ok.ok =>
      rcases hLands with ⟨w₂, hLater, hMachine, hGood⟩
      exact ⟨w₂, hLater, hStands.reach hLater hMachine, hGood⟩
    case error.error =>
      rcases hLands with ⟨hSame, w₂, hLater, hMachine⟩
      exact ⟨hSame, w₂, hLater, hStands.reach hLater hMachine⟩
    all_goals exact hLands.elim

/- The step that makes an object is one step for the history. -/
instance : Eval.MakesAtOnce Watched where
  liftM_make _ := rfl

/- What is shown of values of a stage can be seen from it on. -/
theorem relates_note
    (hRespected : L.Respected)
    (given : Option Value)
    (passed : List Value)
    (hGiven : ∀ v ∈ given, ∃ v', L.values w v v')
    (hPassed : ∀ v ∈ passed, ∃ v', L.values w v v')
    {good : W → α → β → Prop}
    {x : Watched α}
    {y : Eval β}
    (h : Relates L first w good x y) :
    Relates L first w good
      (do
        modify fun h => h.note given passed
        x)
      y := by
  intro w₁ hStage history m' hStands
  have hLater :
      ∀ v, (∃ v', L.values w v v') → ∃ v', L.values w₁ v v' :=
    fun _ ⟨v', hValue⟩ =>
      ⟨v', hRespected.values_mono hStage hValue⟩
  exact h w₁ hStage _ m'
    (hStands.note (fun v hMem => hLater v (hGiven v hMem))
      fun v hMem => hLater v (hPassed v hMem))

end Watched

------------------------------------------------------------
-- Evaluation
------------------------------------------------------------

variable [Platform]

namespace Likeness.Respected

variable (h : L.Respected)

include h

/- Names are bound one at a time. -/
omit [Platform] in
theorem watchedDefineAll
    {s s' : ScopeId}
    (hScope : L.scopes w s s')
    {params params' : List Identifier}
    (hParams : List.Forall₂ L.names params params')
    {args args' : List Value}
    (hArgs : List.Forall₂ (L.values w) args args') :
    (Watched.likeness L first).rel w Unknown
      (Watched.defineAll s (params.zip args))
      (Eval.defineAll s' (params'.zip args')) := by
  let K := Watched.likeness L first
  induction hParams generalizing w args args' with
  | nil => exact K.pure fun _ _ => trivial
  | cons hParam _ ih =>
      cases hArgs with
      | nil => exact K.pure fun _ _ => trivial
      | cons hFirst hRest =>
          rw [List.zip_cons_cons, List.zip_cons_cons]
          unfold Eval.defineAll Watched.defineAll
          exact K.bind (K.lift (h.define hParam hScope hFirst))
            fun w₁ hStage _ _ _ =>
              ih (h.scopes_mono hStage hScope)
                (h.forall₂_mono hStage hRest)

variable {eval : Node → ScopeId → Watched Value}
variable {eval' : Node → ScopeId → Eval Value}
variable (hEval : (Watched.likeness L first).Evaluators eval eval')

include hEval

omit [Platform] in
theorem watchedPart :
    (Watched.likeness L first).Evaluators (Watched.part eval)
      eval' := by
  let K := Watched.likeness L first
  intro w n n' s s' hNode hScope
  rw [← bind_pure (eval' n' s')]
  refine K.bind (hEval w n n' s s' hNode hScope)
    fun w₁ _ v v' hValue => ?_
  refine Watched.relates_note h (some v) [] ?_ nofun
    (K.pureValue h hValue)
  rintro _ ⟨⟩
  exact ⟨v', hValue⟩

theorem watchedApply
    (hPrints : L.Prints)
    (depth : Nat) :
    (Watched.likeness L first).Appliers
      (Watched.apply eval depth)
      (Eval.apply (M := Eval) eval' depth) := by
  let K := Watched.likeness L first
  intro w fn fn' args args' hFn hArgs
  refine Watched.relates_note h none args nofun ?_ ?_
  · intro v hMem
    rcases List.mem_iff_getElem.mp hMem with ⟨i, hLess, rfl⟩
    exact ⟨_, hArgs.get hLess (hArgs.length_eq ▸ hLess)⟩
  have hMatch := h.values_match hFn
  cases fn with
  | function id params body outer =>
      cases hMatch with
      | plain hPlain => exact hPlain.elim
      | function _ id' hParams hBody hOuter =>
          rw [Eval.apply_function]
          refine K.bind (K.lift (h.newScope hOuter))
            fun w₁ hStage s s' hNew => ?_
          refine K.bind (h.watchedDefineAll hNew hParams
            (h.forall₂_mono hStage hArgs))
              fun w₂ hLater _ _ _ => ?_
          refine K.bind (hEval w₂ _ _ s s' hBody
            (h.scopes_mono hLater hNew))
              fun w₃ _ v v' hValue => ?_
          exact K.pureValue h (h.unwrapReturned hValue)
  | _ =>
      exact K.apply h hEval depth hFn hArgs fun b _ =>
        K.lift (h.call depth b hArgs fun _ =>
          hPrints w depth args args' hArgs)

omit hEval in
/- Evaluation keeps to a likeness at every moment. -/
theorem evaluateWatched
    (hPrints : L.Prints)
    (first : W)
    (depth : Nat) :
    (Watched.likeness L first).Evaluators
      (Eval.evaluateWatched depth)
      (Eval.evaluateWithin depth) := by
  let K := Watched.likeness L first
  induction depth with
  | zero => exact fun _ _ _ _ _ _ _ => K.lift (.throw _)
  | succ depth ih =>
      have hParts := h.watchedPart ih
      intro w n n' s s' hNode hScope
      unfold Eval.evaluateWatched Eval.evaluateWithin
      rw [Watched.step_eq_stepBy, Eval.step_eq_stepBy]
      exact K.stepBy h hParts hScope
        (h.watchedApply hParts hPrints depth) depth hNode

omit hEval in
/-
  Everything there is to see at a moment of an evaluation stands
  for something, at a stage since the one at which it began.
-/
theorem sights_stand
    (hPrints : L.Prints)
    (depth : Nat)
    {n n' : Node}
    (hNode : L.nodes n n')
    {s s' : ScopeId}
    (hScope : L.scopes w s s')
    {m m' : Machine}
    (hMachine : L.machines w m m') :
    ∀ sight ∈ Eval.sights depth n s m,
      ∃ w₁, w ≤ w₁ ∧ sight.Stands L w₁ := by
  have hMeets :=
    h.evaluateWatched hPrints w depth w n n' s s' hNode hScope w
      (le_refl w) (.start m) m' (History.start_stands hMachine)
  intro sight hMem
  rcases List.mem_append.mp hMem with hBefore | hEnd
  · exact hMeets.sights sight hBefore
  · rw [List.mem_singleton.mp hEnd]
    have hFinal := hMeets.final
    rw [Eval.erase_evaluateWatched] at hFinal
    exact hFinal

end Likeness.Respected

end Monkey
