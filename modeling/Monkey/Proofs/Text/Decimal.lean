import Monkey.Proofs.Token.Respelling
import Monkey.Text.Decimal

/-
  The decimal text of a number, read again.

  A number is written with digits only, and its text has no more
  of them than may be read exactly if the number may be written.

  Main declarations:
    * `lexeme_repr`
    * `digitsValue_repr`
    * `length_repr_le`
-/

namespace Monkey

------------------------------------------------------------
-- Digits
------------------------------------------------------------

/- What core calls a decimal digit. -/
theorem isDigit_of_charIsDigit
    {c : Char}
    (h : c.isDigit = true) :
    isDigit c = true := by
  simpa [isDigit, Char.isDigit, Char.le_def] using h

/- The text of a number is a run of digits. -/
theorem lexeme_repr
    (n : Nat) :
    Lexeme .int n.repr.toList := by
  rw [Nat.toList_repr]
  refine .number Nat.toDigits_ne_nil fun c hMem => ?_
  exact isDigit_of_charIsDigit
    (Nat.isDigit_of_mem_toDigits (by decide) (by decide) hMem)

/- The digits of a number have its value. -/
theorem digitsValue_repr
    (n : Nat) :
    digitsValue n.repr.toList = n := by
  have hDigits : Nat.ofDigitChars 10 (Nat.toDigits 10 n) 0 = n :=
    Nat.ofDigitChars_toDigits (by decide) (by decide)
  rw [Nat.ofDigitChars_eq_foldl] at hDigits
  rw [Nat.toList_repr]
  unfold digitsValue digitValue
  simpa only [Nat.mul_comm 10] using hDigits

------------------------------------------------------------
-- Numbers Within the Limit
------------------------------------------------------------

/- A number below a power of ten has no more digits than the
   exponent says. -/
theorem length_repr_le
    {n k : Nat}
    (hPositive : 0 < k)
    (h : n < Nat.pow 10 k) :
    n.repr.length ≤ k :=
  (Nat.length_repr_le_iff hPositive).mpr h

theorem writeInteger?_natCast
    {n : Nat}
    (h : n < Nat.pow 10 digitLimit) :
    writeInteger? n = some n.repr := by
  unfold writeInteger?
  rw [Int.natAbs_natCast, if_pos h]
  rfl

/- A negative number has a sign before its digits. -/
theorem writeInteger?_neg
    {n : Nat}
    (h : n < Nat.pow 10 digitLimit)
    (hPositive : 0 < n) :
    writeInteger? (-n) = some ("-" ++ n.repr) := by
  unfold writeInteger?
  rw [Int.natAbs_neg, Int.natAbs_natCast, if_pos h]
  cases n with
  | zero => cases hPositive
  | succ n => rfl

end Monkey
