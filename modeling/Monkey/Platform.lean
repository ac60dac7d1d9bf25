/-
  What programs run on.

  A `Platform` limits how deeply the machine may nest its own
  work, and tells which characters it can encode.  Nothing else
  about it is known to the machine, so what holds in general
  holds on every platform.

  A text of the language may hold one half of a surrogate pair
  without the other.  No `Char` is such a half.  A platform can
  set characters aside to stand for them: those are not encoded.
-/

namespace Monkey

------------------------------------------------------------
-- Platforms
------------------------------------------------------------

/-
  The limits of the parser, of evaluation, and of showing a
  result or a syntax tree, all counted in levels of nesting or
  recursion; the characters that have 16-bit units; and those
  that can be printed, the ASCII characters among them.
-/
class Platform where
  nestingLimit : Nat
  recursionLimit : Nat
  displayLimit : Nat
  encodes : Char → Bool
  prints : Char → Bool
  prints_ascii : ∀ c, c.toNat < 128 → prints c = true

namespace Platform

/- The first of the characters set aside on the usual platform:
   one for each half of a surrogate pair. -/
def firstHalf : Nat := 0x10F800

/- The character that stands for half of a surrogate pair. -/
def half (unit : Nat) : Char :=
  Char.ofNat (firstHalf + (unit - 0xD800))

/- A platform with the usual limits.  The last 2048 characters
   stand for halves of surrogate pairs, which are not encoded, be
   it for a hash or for printing. -/
@[reducible]
def usual : Platform where
  nestingLimit := 400
  recursionLimit := 4500
  displayLimit := 490
  encodes c := c.toNat < firstHalf
  prints c := c.toNat < firstHalf
  prints_ascii c hAscii :=
    decide_eq_true (Nat.lt_trans hAscii (by decide))

end Platform

end Monkey
