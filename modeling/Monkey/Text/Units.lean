/-
  The 16-bit units of a text and its hash.

  `units16` writes a character as one unit, or as two from
  U+10000 on.  `textHash` is the "times 33" hash over those
  units, kept in 32 signed bits and read off as unsigned.
-/

namespace Monkey

------------------------------------------------------------
-- 16-bit Units
------------------------------------------------------------

/- The units of one character: a surrogate pair beyond the
   basic plane. -/
def charUnits16 (c : Char) : List Nat :=
  let n := c.toNat
  if n < 0x10000 then
    [n]
  else
    [0xD800 + (n - 0x10000) / 0x400,
      0xDC00 + (n - 0x10000) % 0x400]

/- The units of a text. -/
def units16 (text : String) : List Nat :=
  text.toList.flatMap charUnits16

------------------------------------------------------------
-- Hash
------------------------------------------------------------

/- The count of 32-bit words, two to the power 32. -/
def wordCount : Nat := 4294967296

/- Keep the low 32 bits of a number, read as signed. -/
def wrapSigned32 (n : Int) : Int :=
  n.bmod wordCount

/- One step of the hash: times 33, plus the unit. -/
def hashStep
    (h : Int)
    (unit : Nat) :
    Int :=
  wrapSigned32 (h * 33 + unit)

/- The hash of a text, a number below `wordCount`. -/
def textHash (text : String) : Int :=
  (units16 text).foldl hashStep 5381 % wordCount

end Monkey
