import Monkey.Value.Basic
import Monkey.Value.Failure
import Monkey.Syntax.Render
import Monkey.Text.Decimal

/-
  The written form of a value.

  `Value.inspect` writes a value for people to read.  It fails
  where values are nested more deeply than allowed, the syntax
  tree of a function included, and where a part has no written
  form.
-/

namespace Monkey

------------------------------------------------------------
-- Parts
------------------------------------------------------------

/- The written form of a function: its parameters and, between
   braces on lines of their own, the text of its body. -/
def inspectFunction
    (params : List Identifier)
    (body : String) :
    String :=
  "fn(" ++ Node.renderParams params ++ ") \x7b\n" ++
    body ++ "\n\x7d"

/- The written form of an integer. -/
def inspectInteger (n : Int) : Except Failure String :=
  match writeInteger? n with
  | some s => .ok s
  | none => .error .longInteger

/- The written form of a boolean. -/
def inspectBool (b : Bool) : String :=
  if b then "true" else "false"

/- Parts between an opening and a closing mark, with commas. -/
def enclose
    (opening : String)
    (closing : String)
    (parts : List String) :
    String :=
  opening ++ String.intercalate ", " parts ++ closing

------------------------------------------------------------
-- Values
------------------------------------------------------------

namespace Value

/- The written form of a value nested no more deeply than the
   given number of levels. -/
def inspect : Nat → Value → Except Failure String
  | 0, _ => .error .tooDeep
  | depth + 1, v =>
      match v with
      | int n => inspectInteger n
      | bool b => .ok (inspectBool b)
      | hostBool _ b => .ok (inspectBool b)
      | null => .ok "null"
      | hostNull _ => .ok "null"
      | str s => .ok s
      | returned _ inner => inspect depth inner
      | error _ message => .ok ("ERROR: " ++ message)
      | function _ params body _ => do
          let text ← body.renderWithin depth
          return inspectFunction params text
      | builtin _ => .ok "builtin function"
      | array _ elements => do
          let parts ← elements.mapM (inspect depth)
          return enclose "[" "]" parts
      | hash _ entries => do
          let parts ← entries.mapM fun e => do
            let key ← inspect depth e.2.key
            let value ← inspect depth e.2.value
            return key ++ ": " ++ value
          return enclose "\x7b" "\x7d" parts
      | hostObject _ => .error .unwritable

end Value

end Monkey
