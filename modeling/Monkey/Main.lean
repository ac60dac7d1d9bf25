import Monkey.CommandLine.Listing

/-
  The program: `monkey` with its arguments.

  `monkey [--ast] [FILE | - | TEXT]` runs a program or prints its
  outline; `monkey --repl` starts an interactive session.
-/

namespace Monkey

------------------------------------------------------------
-- Surroundings
------------------------------------------------------------

/- The settings in the variables of the process. -/
def readSettings : IO Settings := do
  return {
    trace := (← IO.getEnv Settings.traceVariable)
    prompt := (← IO.getEnv Settings.promptVariable) }

/- What a path names in the file system.  What cannot be read
   as a file counts as missing. -/
def findEntry (path : String) : IO FileEntry := do
  if hasZero path then
    return .zeroCharacter
  else
    try
      return .file (← IO.FS.readBinFile path)
    catch
      | .invalidArgument .. => return .nameTooLong
      | _ => return .missing

/- Print what is to be printed. -/
def Printed.write (printed : Printed) : IO Unit := do
  (← IO.getStdout).putStr printed.out
  (← IO.getStderr).putStr printed.err
  (← IO.getStdout).flush

------------------------------------------------------------
-- Endings
------------------------------------------------------------

/- What to tell about a file. -/
def FileProblem.message : FileProblem → String
  | nameTooLong path => "file name too long: " ++ path
  | missing path => "no such file: " ++ path
  | directory path => "is a directory: " ++ path
  | notDirectory path => "not a directory: " ++ path
  | zeroCharacter => "file name with a zero character"
  | undecodable => "file is not UTF-8 text"

/- The status of an ending, after telling what went wrong. -/
def Ending.finish : Ending → IO UInt32
  | finished => return 0
  | status code => return code.toUInt32
  | refused message => do
      IO.eprintln message
      return 1
  | failed f => do
      IO.eprintln f.message
      return 1
  | unreadable problem => do
      IO.eprintln problem.message
      return 1

------------------------------------------------------------
-- Commands
------------------------------------------------------------

variable [Platform]

/- Run a program or print its outline. -/
def runOnce (args : List String) : IO UInt32 := do
  let settings ← readSettings
  let target :=
    match Invocation.ofArguments args with
    | .ok invocation => invocation.target
    | .error _ => ""
  let input ←
    if target = Invocation.inputPath then
      (← IO.getStdin).readToEnd
    else
      pure ""
  let entry ← findEntry (tidyPath target)
  let around : Surroundings :=
    { entry := fun _ => entry, input }
  let report := runCommandLine settings around args
  report.printed.write
  report.ending.finish

/- Take lines until the session ends. -/
partial def interact (s : Session) : IO UInt32 := do
  let stdout ← IO.getStdout
  stdout.putStr s.settings.promptText
  stdout.flush
  let entered ← (← IO.getStdin).getLine
  let line : Session.Line :=
    if entered = "" then .endOfInput else .text entered
  let (printed, next) := s.feed line
  printed.write
  match next with
  | .goOn after => interact after
  | .leave => return 0
  | .fail f => Ending.finish (.failed f)

/- Start an interactive session. -/
def startSession : IO UInt32 := do
  (← IO.getStdout).putStr banner
  interact (.new (← readSettings))

end Monkey

/- Start a session or run a program, on the usual platform. -/
def main (args : List String) : IO UInt32 :=
  letI := Monkey.Platform.usual
  if args = ["--repl"] then
    Monkey.startSession
  else
    Monkey.runOnce args
