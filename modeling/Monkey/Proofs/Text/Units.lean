import Mathlib.Algebra.BigOperators.Fin
import Mathlib.Data.Int.ModEq
import Mathlib.Tactic.Ring
import Monkey.Text.Units

/-
  The hash of a text in one formula.

  The hash is made in steps, each of which keeps 32 signed bits,
  and is read off as unsigned in the end.  Up to multiples of
  two to the power 32 no step changes anything.  So the hash is
  that of the number whose digits to the base 33 are the units of
  the text, and going on from a hash needs nothing but the hash.

  Main declarations:
    * `EncodesUnits`
    * `base33`
    * `hashStep_modEq`
    * `foldl_hashStep_modEq`
    * `textHash_eq_base33`
-/

namespace Monkey

------------------------------------------------------------
-- 16-bit Units
------------------------------------------------------------

/-
  Units that encode characters: one for a character of the basic
  plane, and a high and a low surrogate for each other one, with
  ten bits in each of them.
-/
inductive EncodesUnits : List Char → List Nat → Prop
  | nil : EncodesUnits [] []
  | basic
      {c : Char}
      {cs : List Char}
      {units : List Nat}
      (hBasic : c.toNat < 0x10000)
      (hMore : EncodesUnits cs units) :
      EncodesUnits (c :: cs) (c.toNat :: units)
  | pair
      {c : Char}
      {cs : List Char}
      {units : List Nat}
      {high low : Nat}
      (hHigh : high < 0x400)
      (hLow : low < 0x400)
      (hChar : c.toNat = 0x10000 + high * 0x400 + low)
      (hMore : EncodesUnits cs units) :
      EncodesUnits (c :: cs)
        ((0xD800 + high) :: (0xDC00 + low) :: units)

theorem toNat_lt_unicode
    (c : Char) :
    c.toNat < 0x110000 := by
  rcases c.valid with hLow | ⟨-, hHigh⟩
  · exact Nat.lt_trans hLow (by decide)
  · exact hHigh

theorem encodesUnits_flatMap
    (cs : List Char) :
    EncodesUnits cs (cs.flatMap charUnits16) := by
  induction cs with
  | nil => exact .nil
  | cons c cs ih =>
      have hChar := toNat_lt_unicode c
      rw [List.flatMap_cons]
      unfold charUnits16
      dsimp only
      split
      · next hBasic => exact .basic hBasic ih
      · next hBeyond =>
          exact .pair (by omega) (by omega) (by omega) ih

/- The units of a text encode it. -/
theorem encodesUnits_units16
    (text : String) :
    EncodesUnits text.toList (units16 text) :=
  encodesUnits_flatMap text.toList

theorem units16_append
    (text more : String) :
    units16 (text ++ more) = units16 text ++ units16 more := by
  unfold units16
  rw [String.toList_append, List.flatMap_append]

------------------------------------------------------------
-- Digits
------------------------------------------------------------

/- The number whose digits to the base 33 are the given ones, the
   first of them being the highest. -/
def base33 (digits : List Nat) : Nat :=
  ∑ i : Fin digits.length,
    digits[i] * 33 ^ (digits.length - 1 - i)

theorem base33_nil : base33 [] = 0 :=
  rfl

theorem base33_cons
    (digit : Nat)
    (digits : List Nat) :
    base33 (digit :: digits) =
      digit * 33 ^ digits.length + base33 digits := by
  refine (Fin.sum_univ_succ (n := digits.length) _).trans ?_
  refine congrArg₂ (· + ·) rfl
    (Finset.sum_congr rfl fun i _ => ?_)
  have hPlace :
      digits.length + 1 - 1 - (i.succ : Nat) =
        digits.length - 1 - i := by
    rw [Fin.val_succ]
    omega
  exact congrArg (digits[i] * 33 ^ ·) hPlace

------------------------------------------------------------
-- Steps
------------------------------------------------------------

/- Keeping 32 signed bits changes nothing up to multiples of two
   to the power 32. -/
theorem hashStep_modEq
    (h : Int)
    (unit : Nat) :
    hashStep h unit ≡ h * 33 + unit [ZMOD wordCount] :=
  Int.bmod_emod

/- A hash that is gone on with is a number that gets further
   digits. -/
theorem foldl_hashStep_modEq
    (h : Int)
    (units : List Nat) :
    units.foldl hashStep h ≡
      h * 33 ^ units.length + base33 units
        [ZMOD wordCount] := by
  induction units generalizing h with
  | nil =>
      rw [base33_nil]
      simp
  | cons unit units ih =>
      rw [List.foldl_cons, List.length_cons, base33_cons]
      calc
        units.foldl hashStep (hashStep h unit)
        _ ≡ hashStep h unit * 33 ^ units.length + base33 units
              [ZMOD wordCount] :=
          ih _
        _ ≡ (h * 33 + unit) * 33 ^ units.length + base33 units
              [ZMOD wordCount] :=
          ((hashStep_modEq h unit).mul_right _).add_right _
        _ = h * 33 ^ (units.length + 1) +
              ↑(unit * 33 ^ units.length + base33 units) := by
          push_cast
          ring

/- What is read off as unsigned stands for the hash that it was
   read off. -/
theorem textHash_modEq
    (text : String) :
    textHash text ≡ (units16 text).foldl hashStep 5381
      [ZMOD wordCount] :=
  Int.mod_modEq _ _

/- Equal remainders are equal hashes. -/
theorem textHash_eq_of_modEq
    {text : String}
    {n : Int}
    (h :
      (units16 text).foldl hashStep 5381 ≡ n
        [ZMOD wordCount]) :
    textHash text = n % wordCount :=
  h

------------------------------------------------------------
-- Hashes
------------------------------------------------------------

/-
  The units of a text encode it, and its hash is the number that
  has 5381 for its first digit and the units for the others, to
  the base 33 and modulo two to the power 32.  The hash of a
  longer text comes from that of its beginning and the units of
  the rest.
-/
theorem textHash_eq_base33
    (text more : String) :
    EncodesUnits text.toList (units16 text) ∧
      textHash text =
        ((5381 * 33 ^ (units16 text).length +
          ∑ i : Fin (units16 text).length,
            (units16 text)[i] *
              33 ^ ((units16 text).length - 1 - i) : Nat) :
          Int) % 2 ^ 32 ∧
      textHash (text ++ more) =
        (textHash text * 33 ^ (units16 more).length +
          base33 (units16 more)) % 2 ^ 32 := by
  refine ⟨encodesUnits_units16 text, ?_, ?_⟩
  · have hDigits :
        (units16 text).foldl hashStep 5381 ≡
          ((5381 * 33 ^ (units16 text).length +
            base33 (units16 text) : Nat) : Int)
            [ZMOD wordCount] := by
      push_cast
      exact foldl_hashStep_modEq 5381 (units16 text)
    exact textHash_eq_of_modEq hDigits
  · refine textHash_eq_of_modEq ?_
    rw [units16_append, List.foldl_append]
    exact (foldl_hashStep_modEq _ _).trans
      (((textHash_modEq text).symm.mul_right _).add_right _)

/- A character beyond the basic plane counts as two units. -/
example :
    units16 "a😀" = [0x61, 0xD83D, 0xDE00] ∧
      textHash "a😀" = 195366243 := by
  decide

end Monkey
