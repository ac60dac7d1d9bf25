import Monkey.Eval.Node
import Monkey.Parse.Grammar

/-
  Running a text and telling its result.

  `run` parses a text and evaluates it in a scope.  `submit`
  does so for a user: it tells the result as a text, and most of
  what can go wrong as well.
-/

namespace Monkey

------------------------------------------------------------
-- Running
------------------------------------------------------------

/- What ends a run without a value. -/
inductive Interrupt where
  | parse (e : ParseError)
  | failure (f : Failure)

/- A computation on a machine that can be interrupted. -/
abbrev Run := EStateM Interrupt Machine

/- A failed parse, as what it is to a run. -/
def ParseFailure.interrupt : ParseFailure → Interrupt
  | error e => .parse e
  | tooDeep => .failure .tooDeep

/- An evaluation as a run. -/
def Eval.toRun
    {α : Type}
    (x : Eval α) :
    Run α :=
  fun m =>
    match x m with
    | .ok a after => .ok a after
    | .error f after => .error (.failure f) after

variable [Platform]

/- Parse a text and evaluate it in a scope. -/
def run
    (source : String)
    (scope : ScopeId) :
    Run Value :=
  match parse source with
  | .ok program => (evaluate program scope).toRun
  | .error f => throw f.interrupt

------------------------------------------------------------
-- Telling a Result
------------------------------------------------------------

/- A text for the user, and whether it tells of an error. -/
structure Display where
  text : String
  isError : Bool

/- The display of a result.  There is nothing to show for
   null. -/
def display (v : Value) : Except Failure Display :=
  match v with
  | .null => .ok { text := "", isError := false }
  | v => do
      let text ← v.inspect Platform.displayLimit
      return { text, isError := v.isError }

------------------------------------------------------------
-- Submissions
------------------------------------------------------------

namespace Failure

/- The failures that the user is told about.  The others end
   whatever they come up in. -/
def isReported : Failure → Bool
  | tooDeep => true
  | unknownNode => true
  | longInteger => false
  | unwritable => false
  | unencodable _ => false
  | unprintable => false

end Failure

/- The display of a submission and, where there is no value
   behind it, what interrupted the run. -/
structure Submission where
  display : Display
  interrupt : Option Interrupt

namespace Submission

/- The submission that an interrupt ends. -/
def ofInterrupt (i : Interrupt) : Submission where
  display :=
    { text :=
        match i with
        | .parse e => e.message
        | .failure f => "ERROR: " ++ f.message
      isError := true }
  interrupt := some i

end Submission

/- Run a text in a scope for a user. -/
def submit
    (source : String)
    (scope : ScopeId) :
    Eval Submission :=
  fun m =>
    match run source scope m with
    | .ok v after =>
        match display v with
        | .ok shown =>
            .ok { display := shown, interrupt := none } after
        | .error f => .error f after
    | .error (.parse e) after =>
        .ok (.ofInterrupt (.parse e)) after
    | .error (.failure f) after =>
        if f.isReported then
          .ok (.ofInterrupt (.failure f)) after
        else
          .error f after

end Monkey
