import Monkey.Platform
import Monkey.Value.Basic
import Monkey.Value.Failure
import Monkey.Text.Units

/-
  The keys of hashes.

  `Value.hashKey?` is defined on integers, booleans, and texts.
  An integer is its own number, while a text is represented by
  its hash.  A text that the platform cannot encode has no hash:
  asking for its key is a failure.
-/

namespace Monkey

variable [Platform]

------------------------------------------------------------
-- Texts
------------------------------------------------------------

/- Whether every character of a text has 16-bit units. -/
def isEncodable (text : String) : Bool :=
  text.toList.all Platform.encodes

/- The hash of a text that can be encoded. -/
def hashText (text : String) : Except Failure Int :=
  if isEncodable text then
    .ok (textHash text)
  else
    .error (.unencodable text)

namespace Value

------------------------------------------------------------
-- Keys
------------------------------------------------------------

/- The key of a boolean. -/
def boolKey (b : Bool) : HashKey where
  type := .boolean
  number := if b then 1 else 0

/- The key of a text. -/
def textKey (s : String) : Except Failure HashKey := do
  return { type := .string, number := ← hashText s }

/- The key of a value that can be one, or the failure that
   asking for it is. -/
def hashKey? : Value → Option (Except Failure HashKey)
  | int n => some (.ok { type := .integer, number := n })
  | bool b => some (.ok (boolKey b))
  | hostBool _ b => some (.ok (boolKey b))
  | str s => some (textKey s)
  | _ => none

end Value

end Monkey
