/-
  Decimal integers with a limit on their length.

  Integers themselves are unbounded; their decimal text is not.
  `readInteger?` refuses more than `digitLimit` digits, leading
  zeros included.  `writeInteger?` refuses the numbers whose
  decimal form would need more.
-/

namespace Monkey

------------------------------------------------------------
-- Digits
------------------------------------------------------------

/- The most decimal digits that are read or written. -/
def digitLimit : Nat := 4300

/- The value of a decimal digit. -/
def digitValue (c : Char) : Nat :=
  c.toNat - '0'.toNat

/- The value of a run of decimal digits. -/
def digitsValue (cs : List Char) : Nat :=
  cs.foldl (fun n c => n * 10 + digitValue c) 0

------------------------------------------------------------
-- Reading and Writing
------------------------------------------------------------

/- The number that a run of digits spells, if it is not too
   long. -/
def readInteger? (digits : String) : Option Nat :=
  if digits.length ≤ digitLimit then
    some (digitsValue digits.toList)
  else
    none

/- The decimal form of a number, if it is not too long.  The
   first number refused is ten to the power `digitLimit`. -/
def writeInteger? (n : Int) : Option String :=
  if n.natAbs < Nat.pow 10 digitLimit then
    some (toString n)
  else
    none

end Monkey
