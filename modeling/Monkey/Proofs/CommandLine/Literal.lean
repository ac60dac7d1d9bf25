import Monkey.CommandLine.Run
import Monkey.Proofs.Session.OneProgram

/-
  A program as an argument.

  The command line and the session come to the same evaluation by
  ways of their own: the one reads its argument, asks whether it
  names a file, and tells the result with a status; the other
  submits a line.  A text that is given as the only argument is
  run like the first line of a session, unless it is empty or too
  long to be asked about as a path.

  Main declarations:
    * `sessionReport`
    * `runSource_of_submit`
    * `runCommandLine_literal_iff`
    * `argument_unlike_line`
-/

namespace Monkey

------------------------------------------------------------
-- The Same Report
------------------------------------------------------------

/- The report of a command that prints what a new session prints
   for a line: its status tells whether the answer is an error. -/
def sessionReport
    [Platform]
    (settings : Settings)
    (text : String)
    (answer : Submission) :
    Report where
  printed := ((Session.new settings).evaluateLine text).1
  ending := .status (if answer.display.isError then 1 else 0)

/- An answer that no failure is behind. -/
def Submission.IsOwn (answer : Submission) : Prop :=
  ∀ f, answer.interrupt ≠ some (.failure f)

/- What a new session prints for a line that has an answer. -/
theorem evaluateLine_of_submit
    [Platform]
    (settings : Settings)
    {text : String}
    {answer : Submission}
    {after : Machine}
    (h : submit text Machine.root .new = .ok answer after) :
    ((Session.new settings).evaluateLine text).1 =
      { out :=
          after.output ++ (Session.report settings answer).out
        err := (Session.report settings answer).err } := by
  have hRun :
      submit text Machine.root
          (Session.new settings).machine.clearOutput =
        .ok answer after := h
  unfold Session.evaluateLine
  rw [hRun]
  rfl

/- A result that can be shown is reported in both ways alike. -/
theorem reportDisplay_eq
    (settings : Settings)
    (out : String)
    (shown : Display) :
    reportDisplay out shown =
      { printed :=
          { out :=
              out ++ (Session.report settings
                { display := shown, interrupt := none }).out
            err :=
              (Session.report settings
                { display := shown, interrupt := none }).err }
        ending := .status (if shown.isError then 1 else 0) } := by
  unfold reportDisplay Session.report
  by_cases hError : shown.isError = true
  · simp [hError]
  · by_cases hText : shown.text = ""
    · simp [hError, hText, Printed.nothing]
    · simp [hError, hText, String.append_assoc]

/- A text that has an answer of its own is run as a program with
   the same report. -/
theorem runSource_of_submit
    [Platform]
    (settings : Settings)
    {text : String}
    {answer : Submission}
    {after : Machine}
    (h : submit text Machine.root .new = .ok answer after)
    (hOwn : answer.IsOwn) :
    runSource settings false text =
      sessionReport settings text answer := by
  unfold sessionReport
  rw [evaluateLine_of_submit settings h]
  unfold runSource
  cases hParse : parse text with
  | error f =>
      unfold submit at h
      rw [run_of_parse_error hParse] at h
      cases f with
      | error e =>
          cases h
          rfl
      | tooDeep =>
          cases h
          exact absurd rfl (hOwn .tooDeep)
  | ok p =>
      rw [submit_of_parse hParse] at h
      change runProgram settings p = _
      unfold runProgram
      cases hEval : evaluate p Machine.root .new with
      | error f m =>
          rw [hEval, answerTo] at h
          split at h
          · cases h
            exact absurd rfl (hOwn f)
          · cases h
      | ok v m =>
          rw [hEval, answerTo] at h
          cases hShown : display v with
          | error f =>
              rw [hShown] at h
              cases h
          | ok shown =>
              rw [hShown] at h
              cases h
              simp only [hShown]
              exact reportDisplay_eq settings _ shown

------------------------------------------------------------
-- The Argument
------------------------------------------------------------

/- A single argument other than the option is the source. -/
theorem ofArguments_single
    {text : String}
    (hOption : text ≠ Invocation.outlineOption) :
    Invocation.ofArguments [text] =
      .ok { outline := false, source := some text } := by
  simp [Invocation.ofArguments, Invocation.extend, hOption]

section

variable {around : Surroundings}
variable {text : String}
variable (hInput : text ≠ Invocation.inputPath)

include hInput

/- An argument that is too long to be asked about is not run. -/
theorem loadSource_tooLong
    (hLong : around.entry (tidyPath text) = .nameTooLong) :
    loadSource around text =
      .error (.unreadable (.nameTooLong (tidyPath text))) := by
  unfold loadSource
  rw [if_neg hInput]
  simp only [hLong]

/- Any other argument that names no file is the text to run. -/
theorem loadSource_literal
    (hFile :
      ∀ bytes, around.entry (tidyPath text) ≠ .file bytes)
    (hShort : around.entry (tidyPath text) ≠ .nameTooLong) :
    loadSource around text = .ok text := by
  unfold loadSource
  rw [if_neg hInput]
  cases hEntry : around.entry (tidyPath text) with
  | file bytes => exact absurd hEntry (hFile bytes)
  | nameTooLong => exact absurd hEntry hShort
  | _ => simp only [hEntry]

end

section

variable (settings : Settings)

/- The only argument is loaded and run. -/
theorem runCommandLine_single
    [Platform]
    (around : Surroundings)
    {text : String}
    (hOption : text ≠ Invocation.outlineOption)
    (hText : text ≠ "") :
    runCommandLine settings around [text] =
      match loadSource around text with
      | .error ending => .silent ending
      | .ok source => runSource settings false source := by
  have hTarget :
      Invocation.target
          { outline := false, source := some text } =
        text :=
    if_neg hText
  unfold runCommandLine
  rw [ofArguments_single hOption]
  change
    (match loadSource around (Invocation.target _) with
      | .error ending => Report.silent ending
      | .ok source => runSource settings false source) = _
  rw [hTarget]

/- With the empty argument the input is asked for. -/
theorem runCommandLine_empty
    [Platform]
    (entry : String → FileEntry) :
    runCommandLine settings { entry, input := "" } [""] =
      .silent (.refused "No input provided on stdin") :=
  rfl

theorem runCommandLine_tooLong
    [Platform]
    (around : Surroundings)
    {text : String}
    (hOption : text ≠ Invocation.outlineOption)
    (hInput : text ≠ Invocation.inputPath)
    (hText : text ≠ "")
    (hLong : around.entry (tidyPath text) = .nameTooLong) :
    runCommandLine settings around [text] =
      .silent (.unreadable (.nameTooLong (tidyPath text))) := by
  rw [runCommandLine_single settings around hOption hText,
    loadSource_tooLong hInput hLong]

end

section

variable {settings : Settings}
variable {text : String}
variable {answer : Submission}

/- What a session prints comes with a status, so it is not the
   report of a source that was not loaded. -/
theorem unreadable_ne_sessionReport
    [Platform]
    (problem : FileProblem) :
    .silent (.unreadable problem) ≠
      sessionReport settings text answer := by
  intro hReport
  cases congrArg Report.ending hReport

theorem refused_ne_sessionReport
    [Platform]
    (message : String) :
    .silent (.refused message) ≠
      sessionReport settings text answer := by
  intro hReport
  cases congrArg Report.ending hReport

end

/-
  A text is the only argument, is no option, stands for no input,
  and names no file.  If a session answers it as the first line,
  and no failure is behind the answer, then the command prints
  just that, whatever there is to read, and its status tells
  whether the answer is an error.  This fails only for the empty
  argument and for one that is too long to be asked about.
-/
theorem runCommandLine_literal_iff
    [Platform]
    (settings : Settings)
    (entry : String → FileEntry)
    (text : String)
    (answer : Submission)
    (after : Machine)
    (hOption : text ≠ Invocation.outlineOption)
    (hInput : text ≠ Invocation.inputPath)
    (hFile : ∀ bytes, entry (tidyPath text) ≠ .file bytes)
    (hSubmit :
      submit text Machine.root .new = .ok answer after)
    (hOwn : answer.IsOwn) :
    (∀ input,
      runCommandLine settings { entry, input } [text] =
        sessionReport settings text answer) ↔
      text ≠ "" ∧ entry (tidyPath text) ≠ .nameTooLong := by
  constructor
  · intro hAlike
    have hReport := hAlike ""
    have hText : text ≠ "" := by
      rintro rfl
      rw [runCommandLine_empty] at hReport
      exact refused_ne_sessionReport _ hReport
    refine ⟨hText, fun hLong => ?_⟩
    rw [runCommandLine_tooLong settings _ hOption hInput hText
      hLong] at hReport
    exact unreadable_ne_sessionReport _ hReport
  · rintro ⟨hText, hShort⟩ input
    rw [runCommandLine_single settings _ hOption hText,
      loadSource_literal hInput hFile hShort]
    exact runSource_of_submit settings hSubmit hOwn

/- A program that prints a line and ends with an error, next to
   a file of another name. -/
theorem runCommandLine_literal_error :
    letI := Platform.usual
    let entry :=
      (Directory.mk [("names.monkey", .empty)]).entry
    let text := "puts(\"monkey\"); -true"
    ∃ answer after,
      submit text Machine.root .new = .ok answer after ∧
        answer.IsOwn ∧
        answer.display.isError = true ∧
        ∀ input,
          runCommandLine ⟨none, none⟩ { entry, input } [text] =
            sessionReport ⟨none, none⟩ text answer := by
  let := Platform.usual
  intro entry text
  have hSubmit :
      submit "puts(\"monkey\"); -true" Machine.root .new =
        .ok
          ⟨⟨"ERROR: unknown operator: -BOOLEAN", true⟩, none⟩
          ⟨#[⟨none, []⟩], "monkey\n", 1⟩ := by
    rfl
  have hEntry :
      (entry (tidyPath text) matches .missing) = true := by
    decide +kernel
  have hOwn :
      Submission.IsOwn
        ⟨⟨"ERROR: unknown operator: -BOOLEAN", true⟩,
          none⟩ :=
    nofun
  have hLiteral :=
    runCommandLine_literal_iff ⟨none, none⟩ entry text _ _
      (by decide) (by decide)
      (fun bytes hFile => by rw [hFile] at hEntry; cases hEntry)
      hSubmit hOwn
  refine ⟨_, _, hSubmit, hOwn, rfl, hLiteral.mpr ⟨?_, ?_⟩⟩
  · decide
  · intro hLong
    rw [hLong] at hEntry
    cases hEntry

------------------------------------------------------------
-- Long Names
------------------------------------------------------------

/- Without the character there is only one part. -/
theorem splitChar_of_not_mem
    {mark : Char}
    {cs : List Char}
    (h : mark ∉ cs) :
    splitChar mark cs = [cs] := by
  induction cs with
  | nil => rfl
  | cons c rest ih =>
      rcases not_or.mp (mt List.mem_cons.mpr h) with
        ⟨hFirst, hRest⟩
      unfold splitChar
      rw [if_neg (Ne.symm hFirst), ih hRest]

theorem pathParts_of_not_mem
    {name : String}
    (h : '/' ∉ name.toList) :
    pathParts name = [name] := by
  unfold pathParts
  rw [splitChar_of_not_mem h]
  exact congrArg (fun part => [part]) String.ofList_toList

/- A name that does not stay in place is a tidy path. -/
theorem tidyPath_of_not_mem
    {name : String}
    (h : '/' ∉ name.toList)
    (hMoves : staysInPlace name = false) :
    tidyPath name = name := by
  have hRoot : rootMark name = "" := by
    have hNone : name.toList.takeWhile (· = '/') = [] := by
      cases hText : name.toList with
      | nil => rfl
      | cons c rest =>
          rw [hText] at h
          have hFirst := (not_or.mp (mt List.mem_cons.mpr h)).1
          simp [Ne.symm hFirst]
    unfold rootMark
    rw [hNone]
  unfold tidyPath
  rw [hRoot, pathParts_of_not_mem h]
  simp only [hMoves, Bool.not_false, List.filter_cons_of_pos,
    List.filter_nil, List.isEmpty_cons, Bool.and_false,
    Bool.false_eq_true, if_false]
  exact String.empty_append

/- A name over the limit is too long in any directory. -/
theorem Directory.entry_long
    (d : Directory)
    {name : String}
    (hPart : '/' ∉ name.toList)
    (hZero : '\x00' ∉ name.toList)
    (hLong : nameLimit < name.utf8ByteSize) :
    d.entry (tidyPath name) = .nameTooLong := by
  have hOther :
      ∀ short : String, short.utf8ByteSize ≤ nameLimit →
        name ≠ short := by
    rintro short hShort rfl
    exact Nat.not_lt.mpr hShort hLong
  have hEmpty := hOther "" (by decide)
  have hMoves : staysInPlace name = false := by
    simp [staysInPlace, hEmpty, hOther "." (by decide)]
  have hNoZero : hasZero name = false := by
    simp [hasZero, hZero]
  have hInside : name ≠ parentPart := hOther ".." (by decide)
  rw [tidyPath_of_not_mem hPart hMoves]
  unfold entry
  rw [if_neg hEmpty, hNoZero, pathParts_of_not_mem hPart]
  unfold follow
  simp only [hMoves, hInside, hLong, if_true, if_false, ite_self,
    Bool.false_eq_true]

------------------------------------------------------------
-- Arguments Unlike Lines
------------------------------------------------------------

/- A literal with many blanks after it, which is too long to be
   the name of a file. -/
def paddedLiteral : String :=
  "true" ++ String.ofList (List.replicate 252 ' ')

theorem not_mem_paddedLiteral
    {c : Char}
    (h : c ∉ "true ".toList) :
    c ∉ paddedLiteral.toList := by
  have hText :
      paddedLiteral.toList =
        "true".toList ++ List.replicate 252 ' ' := by
    unfold paddedLiteral
    rw [String.toList_append]
    exact congrArg ("true".toList ++ ·) String.toList_ofList
  have hSplit : "true ".toList = "true".toList ++ [' '] := rfl
  rw [hSplit, List.mem_append, List.mem_singleton] at h
  rw [hText, List.mem_append]
  exact fun hMem =>
    h (hMem.imp_right List.eq_of_mem_replicate)

/- Whether there is an answer, with nothing behind it. -/
def isAnswered :
    EStateM.Result Failure Machine Submission → Bool
  | .ok answer _ => answer.interrupt.isNone
  | .error _ _ => false

theorem exists_answer_of_check
    {r : EStateM.Result Failure Machine Submission}
    (h : isAnswered r = true) :
    ∃ answer after, r = .ok answer after ∧ answer.IsOwn := by
  cases r with
  | error f after => cases h
  | ok answer after =>
      refine ⟨answer, after, rfl, fun f hBehind => ?_⟩
      rw [isAnswered, hBehind] at h
      cases h

/- Where there are no files, the empty text and a long one are
   answered by a session.  The one is not run as an argument,
   since the input is read in its place, and the other one is not
   run at all. -/
theorem argument_unlike_line :
    letI := Platform.usual
    let entry := (Directory.mk []).entry
    ∀ text ∈ ["", paddedLiteral],
      text ≠ Invocation.outlineOption ∧
        text ≠ Invocation.inputPath ∧
        (∀ bytes, entry (tidyPath text) ≠ .file bytes) ∧
        ∃ answer after,
          submit text Machine.root .new = .ok answer after ∧
            answer.IsOwn ∧
            runCommandLine ⟨none, none⟩ { entry, input := "" }
                [text] ≠
              sessionReport ⟨none, none⟩ text answer := by
  let := Platform.usual
  intro entry
  have hDirectory :
      (entry (tidyPath "") matches .directory) = true := by
    decide +kernel
  have hLong : entry (tidyPath paddedLiteral) = .nameTooLong :=
    Directory.entry_long _ (not_mem_paddedLiteral (by decide))
      (not_mem_paddedLiteral (by decide)) (by decide +kernel)
  obtain ⟨first, after, hEmpty, hFirst⟩ :=
    exists_answer_of_check (r := submit "" Machine.root .new)
      (by decide +kernel)
  obtain ⟨second, after', hPadded, hSecond⟩ :=
    exists_answer_of_check
      (r := submit paddedLiteral Machine.root .new)
      (by decide +kernel)
  clear_value entry
  have hOption : paddedLiteral ≠ Invocation.outlineOption := by
    decide +kernel
  have hInput : paddedLiteral ≠ Invocation.inputPath := by
    decide +kernel
  have hText : paddedLiteral ≠ "" := by
    decide +kernel
  refine List.forall_mem_cons.mpr
    ⟨?_, List.forall_mem_singleton.mpr ?_⟩
  · refine ⟨by decide, by decide, fun bytes hFile => ?_, first,
      after, hEmpty, hFirst, ?_⟩
    · rw [hFile] at hDirectory
      cases hDirectory
    · rw [runCommandLine_empty]
      exact refused_ne_sessionReport _
  · refine ⟨hOption, hInput, fun bytes hFile => ?_, second,
      after', hPadded, hSecond, ?_⟩
    · rw [hLong] at hFile
      cases hFile
    · rw [runCommandLine_tooLong _ { entry, input := "" }
        hOption hInput hText hLong]
      exact unreadable_ne_sessionReport _

end Monkey
