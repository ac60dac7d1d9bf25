/-
  What stops the machine itself.

  A failure is no value: no program can see it or go on after
  it.  Errors of the language, in contrast, are values.
-/

namespace Monkey

------------------------------------------------------------
-- Failures
------------------------------------------------------------

/-
  The machine stops where nesting or recursion is too deep, at
  an integer too long to be written, at a foreign object in a
  syntax tree, at a value that has no written form, at a key
  whose text has no 16-bit units, and at a text that cannot be
  printed.
-/
inductive Failure where
  | tooDeep
  | longInteger
  | unknownNode
  | unwritable
  | unencodable (text : String)
  | unprintable
deriving DecidableEq

namespace Failure

/- What to tell about a failure. -/
def message : Failure → String
  | tooDeep => "maximum recursion depth exceeded"
  | longInteger => "integer too long to be written"
  | unknownNode => "Unknown node: Unknown"
  | unwritable => "value without a written form"
  | unencodable _ => "text without 16-bit units"
  | unprintable => "text that cannot be printed"

end Failure

end Monkey
