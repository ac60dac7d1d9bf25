import Monkey.CommandLine.Directory
import Monkey.Session.Loop
import Monkey.Syntax.Outline

/-
  The command line.

  `runCommandLine` runs the program that the arguments name: a
  file, the standard input, or the text of the argument itself.
  What it prints and how it ends is its `Report`.
-/

namespace Monkey

------------------------------------------------------------
-- Reports
------------------------------------------------------------

/- What can go wrong with a file. -/
inductive FileProblem where
  | nameTooLong (path : String)
  | missing (path : String)
  | directory (path : String)
  | notDirectory (path : String)
  | zeroCharacter
  | undecodable

/-
  How a command ends: without a status, with a status, with a
  message instead of one, or by a failure.
-/
inductive Ending where
  | finished
  | status (code : Nat)
  | refused (message : String)
  | failed (f : Failure)
  | unreadable (problem : FileProblem)

/- What a command prints and how it ends. -/
structure Report where
  printed : Printed
  ending : Ending

namespace Report

/- End without printing anything. -/
def silent (ending : Ending) : Report where
  printed := .nothing
  ending := ending

/- End with a line on the error side and status one. -/
def complaint (line : String) : Report where
  printed := { out := "", err := line ++ "\n" }
  ending := .status 1

end Report

/- The files within reach, and the text on standard input. -/
structure Surroundings where
  entry : String → FileEntry
  input : String

------------------------------------------------------------
-- Arguments
------------------------------------------------------------

/- What the arguments ask for. -/
structure Invocation where
  outline : Bool
  source : Option String

namespace Invocation

/- The option that asks for the outline. -/
def outlineOption : String := "--ast"

/- The path that stands for standard input. -/
def inputPath : String := "-"

/- Read further arguments, of which one at most can be a
   source; a second one is handed back. -/
def extend
    (i : Invocation) :
    List String → Except String Invocation
  | [] => .ok i
  | argument :: rest =>
      if argument = outlineOption then
        extend { i with outline := true } rest
      else
        match i.source with
        | none => extend { i with source := some argument } rest
        | some _ => .error argument

/- Read the arguments. -/
def ofArguments (args : List String) :
    Except String Invocation :=
  extend { outline := false, source := none } args

/- The path or text to run; an empty argument is none. -/
def target (i : Invocation) : String :=
  match i.source with
  | none => inputPath
  | some argument =>
      if argument = "" then inputPath else argument

end Invocation

------------------------------------------------------------
-- Source Texts
------------------------------------------------------------

/-
  The text to run, or why there is none.  An argument is a file
  if its tidy path names one, and else the text itself.  It is
  an error if the tidy path is too long to ask.
-/
def loadSource
    (around : Surroundings)
    (target : String) :
    Except Ending String :=
  if target = Invocation.inputPath then
    if around.input = "" then
      .error (.refused "No input provided on stdin")
    else
      .ok around.input
  else
    let path := tidyPath target
    match around.entry path with
    | .file bytes =>
        match decodeFile bytes with
        | some text => .ok text
        | none => .error (.unreadable .undecodable)
    | .nameTooLong =>
        .error (.unreadable (.nameTooLong path))
    | _ => .ok target

------------------------------------------------------------
-- Running a Program
------------------------------------------------------------

/- Print the outline of a program. -/
def printOutline (program : Node) : Report :=
  match program.outline? with
  | some o =>
      { printed := { out := o.pretty, err := "" }
        ending := .status 0 }
  | none => .silent (.failed .unknownNode)

/- Stop a run at a failure, after what it printed. -/
def reportFailure
    (settings : Settings)
    (out : String)
    (f : Failure) :
    Report :=
  if f.isReported then
    { printed :=
        { out
          err := "runtime error: " ++ f.message ++ "\n" ++
            traceReport settings }
      ending := .status 1 }
  else
    { printed := { out, err := "" }, ending := .failed f }

/- Print a result after what the program printed. -/
def reportDisplay
    (out : String)
    (shown : Display) :
    Report :=
  if shown.isError then
    { printed := { out, err := shown.text ++ "\n" }
      ending := .status 1 }
  else if shown.text = "" then
    { printed := { out, err := "" }, ending := .status 0 }
  else
    { printed := { out := out ++ shown.text ++ "\n", err := "" }
      ending := .status 0 }

variable [Platform]

/- Evaluate a program on a new machine and print its result. -/
def runProgram
    (settings : Settings)
    (program : Node) :
    Report :=
  match evaluate program Machine.root Machine.new with
  | .error f after => reportFailure settings after.output f
  | .ok v after =>
      match display v with
      | .error f => reportFailure settings after.output f
      | .ok shown => reportDisplay after.output shown

/- Parse a text, and then run it or print its outline. -/
def runSource
    (settings : Settings)
    (outline : Bool)
    (source : String) :
    Report :=
  match parse source with
  | .error (.error e) =>
      .complaint ("parse error: " ++ e.message)
  | .error .tooDeep => .silent (.failed .tooDeep)
  | .ok program =>
      if outline then
        printOutline program
      else
        runProgram settings program

/- Run what the arguments ask for. -/
def runCommandLine
    (settings : Settings)
    (around : Surroundings)
    (args : List String) :
    Report :=
  match Invocation.ofArguments args with
  | .error argument =>
      .silent
        (.refused ("Unexpected argument: " ++ argument))
  | .ok invocation =>
      match loadSource around invocation.target with
      | .error ending => .silent ending
      | .ok source =>
          runSource settings invocation.outline source

end Monkey
