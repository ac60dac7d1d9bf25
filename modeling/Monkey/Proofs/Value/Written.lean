import Monkey.Proofs.Syntax.Known
import Monkey.Proofs.Syntax.Text
import Monkey.Proofs.Value.Within
import Monkey.Value.Inspect

/-
  Which values can be written.

  A value has a written form unless it is nested too deeply,
  bodies of functions included, has an integer inside that is
  too long, or an object without any form.  Objects of the last
  kind are not native: no program makes them.

  Main declarations:
    * `Value.NestedWithin`
    * `Value.Native`
    * `Value.inspect_error`
-/

namespace Monkey

namespace Value

------------------------------------------------------------
-- Nesting
------------------------------------------------------------

/- The values right inside a value. -/
def parts : Value → List Value
  | returned _ v => [v]
  | array _ elements => elements
  | hash _ entries =>
      entries.flatMap fun entry =>
        [entry.2.key, entry.2.value]
  | _ => []

/- How high the body of a function is. -/
def bodyHeight : Value → Nat
  | function _ _ body _ => body.height
  | _ => 0

/- A value nested no more deeply than a number of levels.  The
   body of a function is nested inside of it. -/
def NestedWithin : Nat → Value → Prop
  | 0, _ => False
  | depth + 1, v =>
      v.bodyHeight ≤ depth ∧
        ∀ part ∈ v.parts, part.NestedWithin depth

/- A value with nothing inside takes one level, and a function as
   many more as its body is high. -/
theorem IsFlat.nestedWithin
    {v : Value}
    {depth : Nat}
    (hFlat : v.IsFlat)
    (hDepth : v.bodyHeight < depth) :
    v.NestedWithin depth := by
  cases depth with
  | zero => cases hDepth
  | succ depth =>
      refine ⟨Nat.le_of_lt_succ hDepth, fun part hPart => ?_⟩
      cases v with
      | returned | array | hash => exact hFlat.elim
      | _ => cases hPart

/- What is in a part of a value is in the value. -/
theorem Contains.of_part
    {v part x : Value}
    (hPart : part ∈ v.parts)
    (hInside : part.Contains x) :
    v.Contains x := by
  cases v with
  | returned id w =>
      rw [List.mem_singleton.mp hPart] at hInside
      exact .returned hInside
  | array id elements => exact .element hPart hInside
  | hash id entries =>
      rcases List.mem_flatMap.mp hPart with
        ⟨entry, hEntry, hIn⟩
      simp only [List.mem_cons, List.not_mem_nil, or_false]
        at hIn
      rcases hIn with rfl | rfl
      · exact .key hEntry hInside
      · exact .value hEntry hInside
  | _ => cases hPart

------------------------------------------------------------
-- Native Values
------------------------------------------------------------

/- A value with a form.  Functions have no foreign object in
   their bodies. -/
def Native : Value → Prop
  | function _ _ body _ => body.Known
  | hostObject _ => False
  | _ => True

/- Evaluation of known nodes makes native values. -/
theorem allows_native :
    Allows Native (fun _ => True) Node.Known where
  int _ := trivial
  bool _ := trivial
  null := trivial
  str _ := trivial
  builtin _ := trivial
  array _ _ := trivial
  hash _ _ := trivial
  function _ _ _ _ := ⟨fun h => ⟨trivial, h⟩, fun h => h.2⟩

------------------------------------------------------------
-- Long Integers
------------------------------------------------------------

/- An integer of more digits than are written. -/
def IsLong (v : Value) : Prop :=
  ∃ n : Int, v = .int n ∧ Nat.pow 10 digitLimit ≤ n.natAbs

/- No integer in a value is too long to be written. -/
def Short (v : Value) : Prop :=
  v.Within fun x => ¬ x.IsLong

theorem inspectInteger_error
    {n : Int}
    {f : Failure}
    (h : inspectInteger n = .error f) :
    f = .longInteger ∧ (int n).IsLong := by
  unfold inspectInteger writeInteger? at h
  by_cases hShort : n.natAbs < Nat.pow 10 digitLimit
  · rw [if_pos hShort] at h
    cases h
  · rw [if_neg hShort] at h
    cases h
    exact ⟨rfl, n, rfl, Nat.le_of_not_lt hShort⟩

------------------------------------------------------------
-- Written Forms
------------------------------------------------------------

/-
  Why a value nested that deeply has no written form.
-/
inductive Unwritten (depth : Nat) (v : Value) :
    Failure → Prop
  | tooDeep
      (hDeep : ¬ v.NestedWithin depth) :
      Unwritten depth v .tooDeep
  | longInteger
      {x : Value}
      (hInside : v.Contains x)
      (hLong : x.IsLong) :
      Unwritten depth v .longInteger
  | unwritable
      {x : Value}
      (hInside : v.Contains x)
      (hForm : ¬ x.Native) :
      Unwritten depth v .unwritable

/- What keeps a part from being written does so for the whole
   value. -/
theorem Unwritten.of_part
    {depth : Nat}
    {v part : Value}
    {f : Failure}
    (hPart : part ∈ v.parts)
    (h : Unwritten depth part f) :
    Unwritten (depth + 1) v f := by
  cases h with
  | tooDeep hDeep =>
      exact .tooDeep fun hNested => hDeep (hNested.2 part hPart)
  | longInteger hInside hLong =>
      exact .longInteger (.of_part hPart hInside) hLong
  | unwritable hInside hForm =>
      exact .unwritable (.of_part hPart hInside) hForm

end Value

section

variable {α β ε : Type}
variable {e : ε}

/- Of two steps one fails if both together do. -/
theorem exists_of_bind_error
    {x : Except ε α}
    {next : α → Except ε β}
    (h : x >>= next = .error e) :
    x = .error e ∨ ∃ a, x = .ok a ∧ next a = .error e := by
  cases x with
  | error e' =>
      cases h
      exact .inl rfl
  | ok a => exact .inr ⟨a, rfl, h⟩

/- A list of computations fails where one of them does. -/
theorem exists_error_of_mapM
    {compute : α → Except ε β}
    {xs : List α}
    (h : xs.mapM compute = .error e) :
    ∃ x ∈ xs, compute x = .error e := by
  induction xs with
  | nil => cases h
  | cons x rest ih =>
      rw [List.mapM_cons] at h
      rcases exists_of_bind_error h with hFirst | ⟨b, -, hOthers⟩
      · exact ⟨x, List.mem_cons_self .., hFirst⟩
      · rcases exists_of_bind_error hOthers with
          hRest | ⟨bs, -, hDone⟩
        · rcases ih hRest with ⟨y, hMem, hError⟩
          exact ⟨y, List.mem_cons_of_mem _ hMem, hError⟩
        · cases hDone

end

namespace Value

/- Why a value could not be written. -/
theorem inspect_error
    {depth : Nat}
    {v : Value}
    {f : Failure}
    (h : v.inspect depth = .error f) :
    Unwritten depth v f := by
  induction depth generalizing v with
  | zero =>
      cases h
      exact .tooDeep id
  | succ depth ih =>
      cases v with
      | int n =>
          rw [inspect] at h
          rcases inspectInteger_error h with ⟨rfl, hLong⟩
          exact .longInteger (.self _) hLong
      | returned id w =>
          exact .of_part (List.mem_singleton.mpr rfl) (ih h)
      | function id params body scope =>
          rw [inspect] at h
          rcases exists_of_bind_error h with hBody | ⟨_, -, hDone⟩
          · rcases Node.renderWithin_error_iff.mp hBody with
              ⟨hHigh, rfl⟩
            exact .tooDeep fun hNested =>
              absurd hNested.1 (Nat.not_le.mpr hHigh)
          · cases hDone
      | array id elements =>
          rw [inspect] at h
          rcases exists_of_bind_error h with hParts | ⟨_, -, hDone⟩
          · rcases exists_error_of_mapM hParts with
              ⟨part, hPart, hError⟩
            exact .of_part hPart (ih hError)
          · cases hDone
      | hash id entries =>
          rw [inspect] at h
          rcases exists_of_bind_error h with hParts | ⟨_, -, hDone⟩
          · rcases exists_error_of_mapM hParts with
              ⟨entry, hEntry, hError⟩
            have hPart :
                ∀ part ∈ [entry.2.key, entry.2.value],
                  part ∈ (hash id entries).parts :=
              fun part hPart => List.mem_flatMap.mpr
                ⟨entry, hEntry, hPart⟩
            rcases exists_of_bind_error hError with
              hKey | ⟨_, -, hOther⟩
            · exact .of_part (hPart _ (by simp)) (ih hKey)
            · rcases exists_of_bind_error hOther with
                hValue | ⟨_, -, hDone⟩
              · exact .of_part (hPart _ (by simp)) (ih hValue)
              · cases hDone
          · cases hDone
      | hostObject id =>
          cases h
          exact .unwritable (.self _) nofun
      | _ => cases h

end Value

end Monkey
