import Monkey.Session.Brackets
import Monkey.Session.Command
import Monkey.Session.Submission

/-
  The interactive session.

  A `Session` is a machine and the settings.  `Session.feed`
  takes one line and tells what it prints and whether the
  session goes on; `Session.converse` runs a list of lines.
-/

namespace Monkey

------------------------------------------------------------
-- Sessions
------------------------------------------------------------

/- The state of a session.  Lines are evaluated in the outermost
   scope of the machine. -/
structure Session where
  machine : Machine
  settings : Settings

/- What a step prints, in the order printed on each side. -/
structure Printed where
  out : String
  err : String

namespace Printed

/- Nothing. -/
def nothing : Printed where
  out := ""
  err := ""

end Printed

/- What a session says first. -/
def banner : String :=
  "monkey repl, type `exit` or Ctrl-D to quit, " ++
    "/ for commands\n"

/- What follows an error that a host failure caused. -/
def traceReport (settings : Settings) : String :=
  if settings.traceEnabled then
    "\nPython traceback:\n"
  else
    ""

------------------------------------------------------------
-- Commands
------------------------------------------------------------

namespace Session

/- A session with nothing bound. -/
def new (settings : Settings) : Session where
  machine := .new
  settings := settings

/- Change the setting for traces and tell the new one. -/
def setTrace
    (s : Session)
    (enabled : Bool) :
    Printed × Session :=
  let settings := s.settings.setTrace enabled
  let state := if settings.traceEnabled then "on" else "off"
  ({ out := "Python traceback: " ++ state ++ "\n"
     err := "" },
    { s with settings })

/- Obey a command. -/
def obey
    (s : Session) :
    Command → Printed × Session
  | .clear => (.nothing, s)
  | .trace .on => s.setTrace true
  | .trace .off => s.setTrace false
  | .trace .toggle => s.setTrace (!s.settings.traceEnabled)
  | .trace .unclear =>
      ({ out := ""
         err := "Usage: /py-traceback [on|off]\n" }, s)
  | .reset =>
      ({ out := "Environment reset.\n", err := "" },
        { s with machine := .new })
  | .unknown name =>
      ({ out := ""
         err := "Unknown command: " ++ name ++ "\n" }, s)

------------------------------------------------------------
-- Programs
------------------------------------------------------------

/- What a submission prints at its end. -/
def report
    (settings : Settings)
    (submission : Submission) :
    Printed :=
  let text := submission.display.text
  match submission.interrupt with
  | some (.parse _) =>
      { out := "", err := "parse error: " ++ text ++ "\n" }
  | some (.failure _) =>
      { out := ""
        err := text ++ "\n" ++ traceReport settings }
  | none =>
      if submission.display.isError then
        { out := "", err := text ++ "\n" }
      else if text = "" then
        .nothing
      else
        { out := text ++ "\n", err := "" }

variable [Platform]

/- Evaluate a text and print its result, or stop at a failure
   that is not reported. -/
def evaluateLine
    (s : Session)
    (text : String) :
    Printed × Session × Option Failure :=
  match submit text Machine.root s.machine.clearOutput with
  | .ok submission after =>
      let shown := report s.settings submission
      ({ shown with out := after.output ++ shown.out },
        { s with machine := after.clearOutput }, none)
  | .error f after =>
      ({ out := after.output, err := "" },
        { s with machine := after.clearOutput }, some f)

------------------------------------------------------------
-- Lines
------------------------------------------------------------

/- What the user can enter. -/
inductive Line where
  | text (s : String)
  | endOfInput
  | interrupt

/- How a session goes on after a line. -/
inductive Next where
  | goOn (s : Session)
  | leave
  | fail (f : Failure)

/- The word that ends a session. -/
def exitWord : String := "exit"

/- Take a line of text without invisible characters. -/
def feedText
    (s : Session)
    (text : String) :
    Printed × Next :=
  if isBlankText text then
    (.nothing, .goOn s)
  else if strip text = exitWord then
    (.nothing, .leave)
  else
    match Command.ofLine? text with
    | some command =>
        let (printed, after) := s.obey command
        (printed, .goOn after)
    | none =>
        match s.evaluateLine text with
        | (printed, after, none) => (printed, .goOn after)
        | (printed, _, some f) => (printed, .fail f)

/- Take a line. -/
def feed
    (s : Session) :
    Line → Printed × Next
  | .text line => s.feedText (normalize line)
  | .endOfInput => ({ out := "\n", err := "" }, .leave)
  | .interrupt =>
      ({ out := "KeyboardInterrupt\n", err := "" }, .goOn s)

------------------------------------------------------------
-- Conversations
------------------------------------------------------------

/- A prompt and what was printed in answer to the line. -/
structure Exchange where
  prompt : String
  printed : Printed

/-
  Take lines until the session ends, as it does where they run
  out, and tell the exchanges and the failure that ended it, if
  one did.
-/
def converse
    (s : Session) :
    List Line → List Exchange × Option Failure
  | [] =>
      ([{ prompt := s.settings.promptText
          printed := (s.feed .endOfInput).1 }], none)
  | line :: rest =>
      let (printed, next) := s.feed line
      let exchange :=
        { prompt := s.settings.promptText, printed }
      match next with
      | .goOn after =>
          let (more, stop) := converse after rest
          (exchange :: more, stop)
      | .leave => ([exchange], none)
      | .fail f => ([exchange], some f)

end Session

end Monkey
