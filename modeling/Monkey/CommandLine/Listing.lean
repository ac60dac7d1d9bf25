import Monkey.CommandLine.Run

/-
  Listings of tokens and outlines.

  `runOutline` prints the outline of a file or of the standard
  input.  `sampleListing` shows how a sample program is cut into
  tokens.
-/

namespace Monkey

------------------------------------------------------------
-- Tokens
------------------------------------------------------------

/- The descriptions of the tokens of a text, one a line. -/
def tokenListing (source : String) : String :=
  String.join
    ((tokens source).map fun t => t.description ++ "\n")

/- The sample program. -/
def sampleSource : String :=
  "\nlet add = fn(x, y) \x7b x + y; \x7d;\n" ++
    "let result = add(5, 10);\n"

/- Print the tokens of the sample program. -/
def runSample : Report where
  printed := { out := tokenListing sampleSource, err := "" }
  ending := .finished

------------------------------------------------------------
-- Outlines
------------------------------------------------------------

/- The text of the file that a path names. -/
def loadFile
    (around : Surroundings)
    (path : String) :
    Except FileProblem String :=
  match around.entry path with
  | .file bytes =>
      match decodeFile bytes with
      | some text => .ok text
      | none => .error .undecodable
  | .directory => .error (.directory path)
  | .missing => .error (.missing path)
  | .notDirectory => .error (.notDirectory path)
  | .nameTooLong => .error (.nameTooLong path)
  | .zeroCharacter => .error .zeroCharacter

/- The text of the file that the first argument names, or the
   standard input where it names none. -/
def loadFirst
    (around : Surroundings)
    (args : List String) :
    Except FileProblem String :=
  match args with
  | [] => .ok around.input
  | path :: _ =>
      if path = Invocation.inputPath then
        .ok around.input
      else
        loadFile around path

/- Print the outline of the program in a file or on the standard
   input, and an empty line after it. -/
def runOutline
    [Platform]
    (around : Surroundings)
    (args : List String) :
    Report :=
  match loadFirst around args with
  | .error problem => .silent (.unreadable problem)
  | .ok source =>
      match parse source with
      | .error (.error e) =>
          .complaint ("Parse error: " ++ e.message)
      | .error .tooDeep => .silent (.failed .tooDeep)
      | .ok program =>
          let report := printOutline program
          { printed :=
              { report.printed with
                out := report.printed.out ++ "\n" }
            ending := .finished }

end Monkey
