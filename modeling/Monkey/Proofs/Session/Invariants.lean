import Monkey.Proofs.Eval.Canonical
import Monkey.Proofs.Eval.Scoping
import Monkey.Proofs.Eval.StoredErrors
import Monkey.Proofs.Session.OneProgram

/-
  What sessions keep.

  A session evaluates one program after another on one machine.
  What a new machine has and every evaluation keeps, a machine
  has after any session, whatever is submitted.

  Main declarations:
    * `Machine.afterSubmissions_induction`
    * `errorFree_afterSubmissions`
    * `canonicalFrom_afterSubmissions`
    * `arises_afterSubmissions`
-/

namespace Monkey

variable [Platform]

/- A submission leaves a machine that an evaluation leaves, or
   the one before. -/
theorem Machine.afterSubmission_induction
    {P : Machine → Prop}
    {m : Machine}
    (h : P m)
    (hEvaluate :
      ∀ p, P (Logged.machineOf (evaluate p root m)))
    (source : String) :
    P (m.afterSubmission source) := by
  cases hParse : parse source with
  | ok p =>
      rw [afterSubmission_of_parse hParse]
      exact hEvaluate p
  | error f =>
      rw [afterSubmission_of_parse_error hParse]
      exact h

/- What evaluations keep holds after every session. -/
theorem Machine.afterSubmissions_induction
    {P : Machine → Prop}
    (hNew : P .new)
    (hEvaluate :
      ∀ m p, P m → P (Logged.machineOf (evaluate p root m)))
    (sources : List String) :
    P (afterSubmissions sources) := by
  have hSession :
      ∀ m, P m → P (sources.foldl afterSubmission m) := by
    induction sources with
    | nil => exact fun m h => h
    | cons source later ih =>
        exact fun m h =>
          ih _ (afterSubmission_induction h
            (fun p => hEvaluate m p h) source)
  exact hSession .new hNew

omit [Platform] in
theorem Sight.machine_final
    (r : EStateM.Result Failure Machine Value) :
    (Sight.final r).machine = Logged.machineOf r := by
  cases r <;> rfl

/- No session leaves an error bound anywhere, or inside something
   bound. -/
theorem errorFree_afterSubmissions
    (sources : List String) :
    (Machine.afterSubmissions sources).ErrorFree := by
  refine Machine.afterSubmissions_induction
    (P := Machine.ErrorFree)
    (fun id => Machine.holds_new.values id trivial)
    (fun m p hClean => ?_) sources
  have hFinal :=
    (errorFree_of_mem_sights hClean
      (Eval.final_mem_sights Platform.recursionLimit p Machine.root
        m)).machine
  rw [Sight.machine_final] at hFinal
  exact hFinal

/- After every session only canonical values can be reached. -/
theorem canonicalFrom_afterSubmissions
    (sources : List String) :
    (Machine.afterSubmissions sources).CanonicalFrom
      Machine.root := by
  refine Machine.afterSubmissions_induction
    (P := fun m => m.CanonicalFrom Machine.root)
    (fun id _ => Machine.holds_new.values id trivial)
    (fun m p hCanonical => ?_) sources
  have hFinal :=
    hCanonical.sight
      (Eval.final_mem_sights Platform.recursionLimit p Machine.root m)
  rw [Sight.machine_final] at hFinal
  exact hFinal

/- Every session comes to a moment of programs that are evaluated
   one after the other, whatever they end in. -/
theorem arises_afterSubmissions
    (sources : List String) :
    ∃ sight : Sight,
      sight.Arises ∧
        sight.machine = Machine.afterSubmissions sources := by
  refine Machine.afterSubmissions_induction
    (P := fun m =>
      ∃ sight : Sight, sight.Arises ∧ sight.machine = m)
    ⟨_, .new, rfl⟩ ?_ sources
  rintro _ p ⟨sight, hArises, rfl⟩
  rcases hArises.stands with ⟨count, hCount, hStands⟩
  have hRoot : Machine.root < sight.machine.scopes.size :=
    hStands.fits.size ▸ hCount
  exact ⟨_, hArises.next hRoot
    (Eval.final_mem_sights Platform.recursionLimit p Machine.root _),
    Sight.machine_final _⟩

end Monkey
