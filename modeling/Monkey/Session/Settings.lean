import Monkey.Text.Blank

/-
  Settings of a session.

  Two variables of the surroundings control a session: one turns
  the report of stack traces on, the other replaces the prompt.
-/

namespace Monkey

------------------------------------------------------------
-- Words for Yes and No
------------------------------------------------------------

/- The words that mean yes. -/
def isYes (word : String) : Bool :=
  ["1", "true", "yes", "on"].contains word

/- The words that mean no. -/
def isNo (word : String) : Bool :=
  ["0", "false", "no", "off"].contains word

/- A text with its ASCII capitals made small.  No other capital
   is part of a word for yes or no. -/
def lowercase (text : String) : String :=
  String.ofList (text.toList.map Char.toLower)

------------------------------------------------------------
-- Settings
------------------------------------------------------------

/- The values of the two variables, where they are set. -/
structure Settings where
  trace : Option String
  prompt : Option String

namespace Settings

/- The names of the variables. -/
def traceVariable : String := "MONKEY_DEBUG_PY_TRACE"

def promptVariable : String := "MONKEY_PROMPT"

/- Whether to report stack traces. -/
def traceEnabled (s : Settings) : Bool :=
  match s.trace with
  | some text => isYes (lowercase (strip text))
  | none => false

/- Turn the report of stack traces on or off. -/
def setTrace
    (s : Settings)
    (enabled : Bool) :
    Settings :=
  { s with trace := if enabled then some "1" else none }

/- The prompt to show; an empty one counts as not set. -/
def promptText (s : Settings) : String :=
  match s.prompt with
  | some text => if text = "" then ">> " else text
  | none => ">> "

end Settings

end Monkey
