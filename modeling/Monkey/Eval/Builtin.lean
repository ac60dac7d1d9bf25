import Monkey.Eval.Complaint
import Monkey.Machine.Basic
import Monkey.Platform
import Monkey.Value.Inspect

/-
  The builtin functions.

  `Builtin.run` runs a builtin function and tells what is wrong
  with its arguments, if anything is.  None of them changes an
  array: those that give an array make a new one.
-/

namespace Monkey

namespace Builtin

variable [Platform]

------------------------------------------------------------
-- Arguments
------------------------------------------------------------

/- The only argument. -/
def oneArgument
    (args : List Value) :
    Except ArgumentError Value :=
  match args with
  | [v] => .ok v
  | _ => .error (.wrongCount args.length 1)

/- The elements of an argument that has to be an array. -/
def elementsOf
    (b : Builtin)
    (v : Value) :
    Except ArgumentError (List Value) :=
  match v with
  | .array _ elements => .ok elements
  | v => .error (.notArray b v.type)

/- The elements of the only argument. -/
def oneArray
    (b : Builtin)
    (args : List Value) :
    Except ArgumentError (List Value) := do
  b.elementsOf (← oneArgument args)

/- The elements of the first of two arguments, and the
   second. -/
def arrayAndValue
    (b : Builtin)
    (args : List Value) :
    Except ArgumentError (List Value × Value) :=
  match args with
  | [v, item] => do
      return (← b.elementsOf v, item)
  | _ => .error (.wrongCount args.length 2)

------------------------------------------------------------
-- Functions
------------------------------------------------------------

/- The number of characters of a text. -/
def runLen
    (args : List Value) :
    Except ArgumentError Value := do
  match (← oneArgument args) with
  | .str s => return .int s.length
  | v => throw (.unsupported len v.type)

/- Whether every character of a text can be printed. -/
def isPrintable (text : String) : Bool :=
  text.toList.all Platform.prints

/- A text as a line, if it can be printed. -/
def asLine (text : String) : Except Failure String :=
  if isPrintable text then
    .ok text
  else
    .error .unprintable

/- The line that prints a value: its written form. -/
def lineFor
    (depth : Nat)
    (v : Value) :
    Except Failure String := do
  asLine (← v.inspect depth)

/- Print the written form of each value on its own line. -/
def printValues
    (depth : Nat) :
    List Value → Eval Unit
  | [] => pure ()
  | v :: others => do
      let line ← Eval.ofExcept (lineFor depth v)
      Eval.printLine line
      printValues depth others

/- A new array. -/
def newArray (elements : List Value) : Eval Value := do
  return .array (← Eval.fresh) elements

/-
  Run a builtin function.  Values printed by it may be nested
  no more deeply than the given number of levels.
-/
def run
    (depth : Nat)
    (b : Builtin)
    (args : List Value) :
    Eval (Except ArgumentError Value) :=
  match b with
  | .len => return runLen args
  | .first =>
      match oneArray first args with
      | .ok elements =>
          return .ok (elements.headD .null)
      | .error e => return .error e
  | .last =>
      match oneArray last args with
      | .ok elements =>
          return .ok (elements.getLastD .null)
      | .error e => return .error e
  | .rest =>
      match oneArray rest args with
      | .ok [] => return .ok .null
      | .ok (_ :: others) => return .ok (← newArray others)
      | .error e => return .error e
  | .push =>
      match arrayAndValue push args with
      | .ok (elements, item) =>
          return .ok (← newArray (elements ++ [item]))
      | .error e => return .error e
  | .puts => do
      printValues depth args
      return .ok .null

/- Call a builtin function; what is wrong with its arguments
   becomes an error value. -/
def call
    (depth : Nat)
    (b : Builtin)
    (args : List Value) :
    Eval Value := do
  match (← b.run depth args) with
  | .ok v => return v
  | .error e => Eval.raise (Complaint.argument e).message

end Builtin

end Monkey
