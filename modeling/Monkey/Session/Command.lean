import Monkey.Session.Settings

/-
  Slash commands.

  A line that starts with a slash is a command to the session
  and no program.  `Command.ofLine?` reads one, and
  `completions` offers the commands that a text can become.
-/

namespace Monkey

------------------------------------------------------------
-- Commands
------------------------------------------------------------

/- What the trace command asks for. -/
inductive TraceSwitch where
  | on
  | off
  | toggle
  | unclear

/- The commands, and the name of anything else. -/
inductive Command where
  | clear
  | trace (switch : TraceSwitch)
  | reset
  | unknown (name : String)

namespace TraceSwitch

/- Read the argument of the trace command. -/
def ofArgument (argument : String) : TraceSwitch :=
  let word := lowercase argument
  if isYes word then on
  else if isNo word then off
  else if argument = "" then toggle
  else unclear

end TraceSwitch

namespace Command

/- Read a line as a command, if it is one. -/
def ofLine? (line : String) : Option Command :=
  let text := strip line
  if text.toList.head? = some '/' then
    let (name, argument) := splitWord text
    if name = "/clear" then
      some clear
    else if name = "/py-traceback" then
      some (trace (.ofArgument argument))
    else if name = "/reset" then
      some reset
    else
      some (unknown name)
  else
    none

end Command

------------------------------------------------------------
-- Completions
------------------------------------------------------------

/- A way to complete a text: what to put in its place, how far
   back that starts, and what it means. -/
structure Completion where
  text : String
  start : Int
  description : String

/- The commands with what they do. -/
def commandDescriptions : List (String × String) :=
  [("/clear", "Clear the terminal screen"),
    ("/py-traceback",
      "Toggle Python traceback on errors [on|off]"),
    ("/reset", "Reset the REPL environment")]

/- The commands that start with a text before the cursor. -/
def completions (before : List Char) : List Completion :=
  if before.head? = some '/' then
    (commandDescriptions.filter fun c =>
        before.isPrefixOf c.1.toList).map fun c =>
      { text := c.1
        start := -before.length
        description := c.2 }
  else
    []

end Monkey
