import Mathlib.Data.List.TakeWhile
import Monkey.Proofs.Eval.Moving
import Monkey.Session.Loop

/-
  A reset starts a session over.

  To reset a session is to give it a new outermost scope, and no
  more.  In a `LastingSession` the scopes from before are still
  there afterwards, functions refer to them, and objects made
  later have identities of their own.  None of this can be seen:
  what follows a reset is what follows the start of a session
  with the same settings.  So a session may as well take a new
  machine.

  Main declarations:
    * `LastingSession`
    * `LastingSession.Mirrors`
    * `LastingSession.Mirrors.converse`
    * `reset_starts_over`
-/

namespace Monkey

------------------------------------------------------------
-- Sessions That Keep Everything
------------------------------------------------------------

variable [Platform]

/- The state of a session that evaluates lines in one scope of a
   machine that it never gives up. -/
structure LastingSession where
  machine : Machine
  scope : ScopeId
  settings : Settings

namespace LastingSession

/- A session with nothing bound. -/
def new (settings : Settings) : LastingSession where
  machine := .new
  scope := Machine.root
  settings := settings

/- Go on in a new scope. -/
def startOver (k : LastingSession) : LastingSession :=
  { k with
    machine :=
      { k.machine with
        scopes := k.machine.scopes.push (.empty none) }
    scope := k.machine.scopes.size }

/- Obey a command. -/
def obey
    (k : LastingSession) :
    Command → Printed × LastingSession
  | .reset =>
      ({ out := "Environment reset.\n", err := "" },
        k.startOver)
  | command =>
      let (printed, after) :=
        Session.obey
          { machine := k.machine, settings := k.settings }
          command
      (printed, { k with settings := after.settings })

/- Evaluate a text and print its result, or stop at a failure
   that is not reported. -/
def evaluateLine
    (k : LastingSession)
    (text : String) :
    Printed × LastingSession × Option Failure :=
  match submit text k.scope k.machine.clearOutput with
  | .ok submission after =>
      let shown := Session.report k.settings submission
      ({ shown with out := after.output ++ shown.out },
        { k with machine := after.clearOutput }, none)
  | .error f after =>
      ({ out := after.output, err := "" },
        { k with machine := after.clearOutput }, some f)

/- How a session goes on after a line. -/
inductive Next where
  | goOn (k : LastingSession)
  | leave
  | fail (f : Failure)

/- Take a line of text without invisible characters. -/
def feedText
    (k : LastingSession)
    (text : String) :
    Printed × Next :=
  if isBlankText text then
    (.nothing, .goOn k)
  else if strip text = Session.exitWord then
    (.nothing, .leave)
  else
    match Command.ofLine? text with
    | some command =>
        let (printed, after) := k.obey command
        (printed, .goOn after)
    | none =>
        match k.evaluateLine text with
        | (printed, after, none) => (printed, .goOn after)
        | (printed, _, some f) => (printed, .fail f)

/- Take a line. -/
def feed
    (k : LastingSession) :
    Session.Line → Printed × Next
  | .text line => k.feedText (normalize line)
  | .endOfInput => ({ out := "\n", err := "" }, .leave)
  | .interrupt =>
      ({ out := "KeyboardInterrupt\n", err := "" }, .goOn k)

/- Take lines until the session ends. -/
def converse
    (k : LastingSession) :
    List Session.Line → List Session.Exchange × Option Failure
  | [] =>
      ([{ prompt := k.settings.promptText
          printed := (k.feed .endOfInput).1 }], none)
  | line :: rest =>
      let (printed, next) := k.feed line
      let exchange : Session.Exchange :=
        { prompt := k.settings.promptText, printed }
      match next with
      | .goOn after =>
          let (more, stop) := after.converse rest
          (exchange :: more, stop)
      | .leave => ([exchange], none)
      | .fail f => ([exchange], some f)

/- Take lines none of which ends the session, and tell what has
   been said and how it goes on. -/
def proceed
    (k : LastingSession) :
    List Session.Line →
      Option (List Session.Exchange × LastingSession)
  | [] => some ([], k)
  | line :: rest =>
      let (printed, next) := k.feed line
      let exchange : Session.Exchange :=
        { prompt := k.settings.promptText, printed }
      match next with
      | .goOn after =>
          (after.proceed rest).map fun (more, last) =>
            (exchange :: more, last)
      | .leave => none
      | .fail _ => none

/- A line after which the session goes on comes first. -/
theorem converse_cons
    {k later : LastingSession}
    {line : Session.Line}
    {printed : Printed}
    (h : k.feed line = (printed, .goOn later))
    (rest : List Session.Line) :
    k.converse (line :: rest) =
      ({ prompt := k.settings.promptText, printed } ::
          (later.converse rest).1,
        (later.converse rest).2) := by
  simp only [converse, h]

/- The session goes on where it has proceeded to. -/
theorem converse_append
    {k last : LastingSession}
    {before : List Session.Line}
    {exchanges : List Session.Exchange}
    (h : k.proceed before = some (exchanges, last))
    (after : List Session.Line) :
    k.converse (before ++ after) =
      (exchanges ++ (last.converse after).1,
        (last.converse after).2) := by
  induction before generalizing k exchanges with
  | nil =>
      cases h
      rfl
  | cons line rest ih =>
      unfold proceed at h
      cases hFeed : k.feed line with
      | mk printed next =>
          cases next with
          | leave => simp [hFeed] at h
          | fail f => simp [hFeed] at h
          | goOn later =>
              simp only [hFeed, Option.map_eq_some_iff] at h
              rcases h with ⟨⟨more, _⟩, hMore, hBoth⟩
              cases hBoth
              rw [List.cons_append, converse_cons hFeed,
                ih hMore]
              rfl

end LastingSession

------------------------------------------------------------
-- Submissions Behind Other Scopes
------------------------------------------------------------

section

variable {base : Scopes}
variable {given : Identity}
variable {count : Nat}

/- A machine with a new empty scope stands for a new one. -/
omit [Platform] in
theorem moving_new
    (base : Scopes)
    (given : Identity) :
    (moving (.behind base given) True).machines 1 Machine.new
      { scopes := base.push (.empty none)
        output := ""
        nextIdentity := given } := by
  refine ⟨Move.behind_fits_new base given, "", ?_, fun _ => rfl⟩
  change _ = Machine.mk (Scopes.behind _ _ (#[].push _)) "" _
  rw [← Scopes.push_behind]
  unfold Scopes.behind
  rw [Array.map_empty, Array.append_empty]
  rfl

/- Machines that stand for each other have printed the same
   text, and do so when it is forgotten. -/
omit [Platform] in
theorem moving_clearOutput
    {m m' : Machine}
    (h :
      (moving (.behind base given) True).machines count m m') :
    m'.output = m.output ∧
      (moving (.behind base given) True).machines count
        m.clearOutput m'.clearOutput := by
  rcases h with ⟨hFits, output, rfl, hOutput⟩
  exact ⟨hOutput trivial, hFits.later (Nat.le_refl _) _, "", rfl,
    fun _ => rfl⟩

/- A value is displayed in the same way behind others. -/
theorem display_behind
    (v : Value) :
    display (v.translate (Move.behind base given).translation) =
      display v := by
  have hInspect :
      (v.translate
          (Move.behind base given).translation).inspect
            Platform.displayLimit =
        v.inspect Platform.displayLimit :=
    Value.inspect_translate
      (fun x _ => x.looksSame_behind base given) Platform.displayLimit
  have hError :=
    v.isError_translate (Move.behind base given).translation
  unfold display
  cases v <;> simp only [Value.translate] at hInspect hError ⊢ <;>
    simp only [hInspect, hError]

/- A submission is answered in the same way behind others. -/
theorem submit_behind
    (source : String)
    {scope : ScopeId}
    (hScope : (Move.behind base given).Inside count scope) :
    (moving (.behind base given) True).Relates count
      (fun _ => Eq) (submit source scope)
      (submit source (base.size + scope)) := by
  intro later hLater m m' hMachines
  unfold submit run
  cases parse source with
  | error f =>
      cases f <;>
        exact ⟨later, le_refl later, hMachines, rfl⟩
  | ok program =>
      have hLands :
          (moving (.behind base given) True).Lands later
            (moving (.behind base given) True).values
            (evaluate program scope m)
            (evaluate program (base.size + scope) m') :=
        (moving_respected _ True).evaluateWithin
          (moving_prints fun _ v => v.looksSame_behind base given)
          Platform.recursionLimit count program program scope
          (base.size + scope) program.renamed_same.symm
          ⟨hScope, rfl⟩ later hLater m m' hMachines
      revert hLands
      simp only [Eval.toRun]
      cases evaluate program scope m with
      | ok v after =>
          cases evaluate program (base.size + scope) m' with
          | error => exact False.elim
          | ok v' after' =>
              rintro ⟨more, hMore, hAfter, -, rfl⟩
              dsimp only
              rw [display_behind]
              cases display v with
              | ok shown => exact ⟨more, hMore, hAfter, rfl⟩
              | error f => exact ⟨rfl, more, hMore, hAfter⟩
      | error f after =>
          cases evaluate program (base.size + scope) m' with
          | ok => exact False.elim
          | error f' after' =>
              rintro ⟨rfl, more, hMore, hAfter⟩
              dsimp only
              split
              · exact ⟨more, hMore, hAfter, rfl⟩
              · exact ⟨rfl, more, hMore, hAfter⟩

end

------------------------------------------------------------
-- Sessions Side by Side
------------------------------------------------------------

namespace LastingSession

/-
  A session behind the scopes and objects of what was before
  stands for a session that has a machine for itself.  Settings
  may differ in what turns traces on.
-/
structure Mirrors
    (k : LastingSession)
    (s : Session) : Prop where
  trace :
    k.settings.traceEnabled = s.settings.traceEnabled
  prompt : k.settings.prompt = s.settings.prompt
  machine :
    ∃ base given count,
      k.scope = base.size + Machine.root ∧
        (Move.behind base given).Inside count Machine.root ∧
        (moving (.behind base given) True).machines count
          s.machine.clearOutput k.machine.clearOutput

namespace Mirrors

variable {k : LastingSession}
variable {s : Session}

omit [Platform] in
theorem promptText_eq
    (h : k.Mirrors s) :
    k.settings.promptText = s.settings.promptText := by
  unfold Settings.promptText
  rw [h.prompt]

/- After a reset a session stands for a new one. -/
omit [Platform] in
theorem startOver
    {settings : Settings}
    (hTrace :
      k.settings.traceEnabled = settings.traceEnabled)
    (hPrompt : k.settings.prompt = settings.prompt) :
    k.startOver.Mirrors (.new settings) where
  trace := hTrace
  prompt := hPrompt
  machine :=
    ⟨k.machine.scopes, k.machine.nextIdentity, 1, rfl,
      fun _ => Nat.one_pos, moving_new ..⟩

/- A new session stands for one with a machine for itself. -/
omit [Platform] in
theorem new
    (settings : Settings) :
    (LastingSession.new settings).Mirrors (.new settings) where
  trace := rfl
  prompt := rfl
  machine :=
    ⟨#[], 0, 1, rfl, fun _ => Nat.one_pos, moving_new #[] 0⟩

/- Commands are obeyed in the same way. -/
omit [Platform] in
theorem obey
    (h : k.Mirrors s)
    (command : Command) :
    (k.obey command).1 = (s.obey command).1 ∧
      (k.obey command).2.Mirrors (s.obey command).2 := by
  have hTrace := h.trace
  have hSwitch :
      ∀ enabled,
        (Session.setTrace
            { machine := k.machine, settings := k.settings }
            enabled).1 =
          (s.setTrace enabled).1 ∧
        Mirrors
          { k with settings := k.settings.setTrace enabled }
          (s.setTrace enabled).2 :=
    fun enabled => ⟨rfl, rfl, h.prompt, h.machine⟩
  cases command with
  | clear => exact ⟨rfl, h⟩
  | reset => exact ⟨rfl, startOver h.trace h.prompt⟩
  | unknown name => exact ⟨rfl, h⟩
  | trace switch =>
      cases switch with
      | on => exact hSwitch true
      | off => exact hSwitch false
      | unclear => exact ⟨rfl, h⟩
      | toggle =>
          have hToggle := hSwitch (!s.settings.traceEnabled)
          rw [← h.trace] at hToggle
          unfold Session.obey
          rw [← h.trace]
          exact hToggle

/- Submissions are reported in the same way. -/
omit [Platform] in
theorem report_eq
    (h : k.Mirrors s)
    (submission : Submission) :
    Session.report k.settings submission =
      Session.report s.settings submission := by
  unfold Session.report traceReport
  rw [h.trace]

/- Texts are evaluated with the same result. -/
theorem evaluateLine
    (h : k.Mirrors s)
    (text : String) :
    (k.evaluateLine text).1 = (s.evaluateLine text).1 ∧
      (k.evaluateLine text).2.1.Mirrors
        (s.evaluateLine text).2.1 ∧
      (k.evaluateLine text).2.2 =
        (s.evaluateLine text).2.2 := by
  rcases h.machine with
    ⟨base, given, count, hScope, hInside, hMachines⟩
  have hLands :=
    submit_behind text hInside count (le_refl count) _ _
      hMachines
  unfold LastingSession.evaluateLine Session.evaluateLine
  rw [hScope]
  revert hLands
  cases submit text Machine.root s.machine.clearOutput with
  | ok submission after =>
      cases submit text (base.size + Machine.root)
          k.machine.clearOutput with
      | error => exact False.elim
      | ok submission' after' =>
          rintro ⟨more, hMore, hAfter, rfl⟩
          rcases moving_clearOutput hAfter with
            ⟨hOutput, hCleared⟩
          dsimp only
          rw [hOutput, h.report_eq]
          exact ⟨rfl, ⟨h.trace, h.prompt, base, given, more, rfl,
            hInside.mono hMore, hCleared⟩, rfl⟩
  | error f after =>
      cases submit text (base.size + Machine.root)
          k.machine.clearOutput with
      | ok => exact False.elim
      | error f' after' =>
          rintro ⟨rfl, more, hMore, hAfter⟩
          rcases moving_clearOutput hAfter with
            ⟨hOutput, hCleared⟩
          dsimp only
          rw [hOutput]
          exact ⟨rfl, ⟨h.trace, h.prompt, base, given, more, rfl,
            hInside.mono hMore, hCleared⟩, rfl⟩

end Mirrors

/- Two sessions go on in the same way, and if they go on one
   stands for the other. -/
inductive SameNext :
    LastingSession.Next → Session.Next → Prop
  | goOn
      {k : LastingSession}
      {s : Session}
      (h : k.Mirrors s) :
      SameNext (.goOn k) (.goOn s)
  | leave : SameNext .leave .leave
  | fail (f : Failure) : SameNext (.fail f) (.fail f)

namespace Mirrors

variable {k : LastingSession}
variable {s : Session}

theorem feedText
    (h : k.Mirrors s)
    (text : String) :
    (k.feedText text).1 = (s.feedText text).1 ∧
      SameNext (k.feedText text).2 (s.feedText text).2 := by
  unfold LastingSession.feedText Session.feedText
  split
  · exact ⟨rfl, .goOn h⟩
  · split
    · exact ⟨rfl, .leave⟩
    · cases Command.ofLine? text with
      | some command =>
          rcases h.obey command with ⟨hPrinted, hAfter⟩
          exact ⟨hPrinted, .goOn hAfter⟩
      | none =>
          have hSame := h.evaluateLine text
          revert hSame
          cases k.evaluateLine text with
          | mk printed rest =>
              cases s.evaluateLine text with
              | mk printed' rest' =>
                  rcases rest with ⟨after, _ | f⟩ <;>
                    rcases rest' with ⟨after', stop⟩ <;>
                    rintro ⟨rfl, hAfter, rfl⟩
                  · exact ⟨rfl, .goOn hAfter⟩
                  · exact ⟨rfl, .fail f⟩

theorem feed
    (h : k.Mirrors s)
    (line : Session.Line) :
    (k.feed line).1 = (s.feed line).1 ∧
      SameNext (k.feed line).2 (s.feed line).2 := by
  cases line with
  | text line => exact h.feedText (normalize line)
  | endOfInput => exact ⟨rfl, .leave⟩
  | interrupt => exact ⟨rfl, .goOn h⟩

/- Sessions that stand for each other say the same. -/
theorem converse
    (h : k.Mirrors s)
    (lines : List Session.Line) :
    k.converse lines = s.converse lines := by
  induction lines generalizing k s with
  | nil =>
      unfold LastingSession.converse Session.converse
      rw [h.promptText_eq, (h.feed .endOfInput).1]
  | cons line rest ih =>
      have hSame := h.feed line
      unfold LastingSession.converse Session.converse
      rw [h.promptText_eq]
      revert hSame
      cases k.feed line with
      | mk printed next =>
          cases s.feed line with
          | mk printed' next' =>
              rintro ⟨rfl, hNext⟩
              cases hNext with
              | goOn hAfter => simp only [ih hAfter]
              | leave => rfl
              | fail f => rfl

end Mirrors

------------------------------------------------------------
-- Resets
------------------------------------------------------------

/- No command changes the prompt. -/
omit [Platform] in
theorem prompt_obey
    (k : LastingSession)
    (command : Command) :
    (k.obey command).2.settings.prompt = k.settings.prompt := by
  cases command with
  | trace switch => cases switch <;> rfl
  | _ => rfl

theorem prompt_evaluateLine
    (k : LastingSession)
    (text : String) :
    (k.evaluateLine text).2.1.settings.prompt =
      k.settings.prompt := by
  unfold evaluateLine
  split <;> rfl

/- No line changes the prompt. -/
theorem prompt_of_feed
    {k after : LastingSession}
    {line : Session.Line}
    (h : (k.feed line).2 = .goOn after) :
    after.settings.prompt = k.settings.prompt := by
  cases line with
  | endOfInput => cases h
  | interrupt =>
      cases h
      rfl
  | text line =>
      change (k.feedText (normalize line)).2 = _ at h
      unfold feedText at h
      split at h
      · cases h
        rfl
      · split at h
        · cases h
        · split at h
          · cases h
            exact k.prompt_obey _
          · next hNone =>
              have hPrompt :=
                k.prompt_evaluateLine (normalize line)
              split at h
              · next hLine =>
                  rw [hLine] at hPrompt
                  cases h
                  exact hPrompt
              · cases h

theorem prompt_of_proceed
    {k last : LastingSession}
    {lines : List Session.Line}
    {exchanges : List Session.Exchange}
    (h : k.proceed lines = some (exchanges, last)) :
    last.settings.prompt = k.settings.prompt := by
  induction lines generalizing k exchanges with
  | nil =>
      cases h
      rfl
  | cons line rest ih =>
      unfold proceed at h
      cases hFeed : k.feed line with
      | mk printed next =>
          cases next with
          | leave => simp [hFeed] at h
          | fail f => simp [hFeed] at h
          | goOn later =>
              simp only [hFeed, Option.map_eq_some_iff] at h
              rcases h with ⟨⟨more, _⟩, hMore, hBoth⟩
              cases hBoth
              have hNext : (k.feed line).2 = .goOn later := by
                rw [hFeed]
              rw [ih hMore, prompt_of_feed hNext]

/- A line that is a command to reset the session. -/
def IsReset (line : Session.Line) : Prop :=
  ∃ text, line = .text text ∧
    Command.ofLine? (normalize text) = some .reset

/- A line with a command begins with a slash. -/
omit [Platform] in
theorem head?_strip_of_command
    {text : String}
    {command : Command}
    (h : Command.ofLine? text = some command) :
    (strip text).toList.head? = some '/' := by
  by_contra hOther
  unfold Command.ofLine? at h
  rw [if_neg hOther] at h
  cases h

theorem feed_reset
    (k : LastingSession)
    {line : Session.Line}
    (h : IsReset line) :
    k.feed line =
      ({ out := "Environment reset.\n", err := "" },
        .goOn k.startOver) := by
  rcases h with ⟨text, rfl, hCommand⟩
  have hHead := head?_strip_of_command hCommand
  have hBlank : ¬ isBlankText (normalize text) = true := by
    intro hAll
    have hNothing :
        (normalize text).toList.dropWhile isBlank = [] :=
      List.dropWhile_eq_nil_iff.mpr (List.all_eq_true.mp hAll)
    unfold strip at hHead
    rw [hNothing] at hHead
    cases hHead
  have hExit : strip (normalize text) ≠ Session.exitWord := by
    intro hWord
    rw [hWord] at hHead
    revert hHead
    decide
  change k.feedText (normalize text) = _
  unfold feedText
  rw [if_neg hBlank, if_neg hExit, hCommand]
  rfl

end LastingSession

/-
  A session may take a new machine at each reset: it says the
  same as one that only takes a new scope.  And whatever has been
  entered before, without ending the session, and whatever it
  has left in the machine: after a reset the session says what a
  new one says, if traces are turned on as at its start.
-/
theorem reset_starts_over
    (settings : Settings) :
    (∀ lines,
      (LastingSession.new settings).converse lines =
        (Session.new settings).converse lines) ∧
    ∀ before exchanges last line after,
      (LastingSession.new settings).proceed before =
        some (exchanges, last) →
      last.settings.traceEnabled = settings.traceEnabled →
      LastingSession.IsReset line →
      (LastingSession.new settings).converse
          (before ++ line :: after) =
        (exchanges ++
            { prompt := settings.promptText
              printed :=
                { out := "Environment reset.\n", err := "" } } ::
            ((LastingSession.new settings).converse after).1,
          ((LastingSession.new settings).converse after).2) := by
  have hNew := LastingSession.Mirrors.new settings
  refine ⟨hNew.converse, ?_⟩
  intro before exchanges last line after hBefore hTrace hReset
  have hPrompt : last.settings.prompt = settings.prompt :=
    LastingSession.prompt_of_proceed hBefore
  have hPromptText :
      last.settings.promptText = settings.promptText := by
    unfold Settings.promptText
    rw [hPrompt]
  have hOver :=
    LastingSession.Mirrors.startOver hTrace hPrompt
  rw [LastingSession.converse_append hBefore,
    LastingSession.converse_cons (last.feed_reset hReset),
    hPromptText, hOver.converse, hNew.converse]

/- A function has been bound, something has gone wrong, and
   traces were turned on for a while. -/
omit [Platform] in
theorem reset_starts_over_unbound :
    letI := Platform.usual
    ∃ exchanges last,
      (LastingSession.new
          { trace := none, prompt := none }).proceed
          [.text "let f = fn(x) \x7b x \x7d;", .text "f(-true)",
            .text "/py-traceback on", .interrupt,
            .text "/py-traceback off"] =
        some (exchanges, last) ∧
      last.settings.traceEnabled = false ∧
      LastingSession.IsReset (.text " /reset ") ∧
      (LastingSession.new
          { trace := none, prompt := none }).converse
          [.text "let f = fn(x) \x7b x \x7d;", .text "f(-true)",
            .text "/py-traceback on", .interrupt,
            .text "/py-traceback off", .text " /reset ",
            .text "f"] =
        (exchanges ++
          [{ prompt := ">> "
             printed :=
              { out := "Environment reset.\n", err := "" } },
            { prompt := ">> "
              printed :=
                { out := ""
                  err :=
                    "ERROR: identifier not found: f\n" } },
            { prompt := ">> "
              printed := { out := "\n", err := "" } }],
          none) := by
  let := Platform.usual
  obtain ⟨exchanges, last, hBefore, hTrace⟩ :
      ∃ exchanges last,
        (LastingSession.new
            { trace := none, prompt := none }).proceed
            [.text "let f = fn(x) \x7b x \x7d;",
              .text "f(-true)", .text "/py-traceback on",
              .interrupt, .text "/py-traceback off"] =
          some (exchanges, last) ∧
        last.settings.traceEnabled = false :=
    ⟨_, _, rfl, rfl⟩
  have hReset : LastingSession.IsReset (.text " /reset ") :=
    ⟨" /reset ", rfl, rfl⟩
  have hAfter :
      (LastingSession.new
          { trace := none, prompt := none }).converse
          [.text "f"] =
        ([{ prompt := ">> "
            printed :=
              { out := ""
                err := "ERROR: identifier not found: f\n" } },
          { prompt := ">> "
            printed := { out := "\n", err := "" } }],
          none) := by
    rfl
  have hConversation :=
    (reset_starts_over { trace := none, prompt := none }).2 _ _ _
      _ [.text "f"] hBefore hTrace hReset
  rw [hAfter] at hConversation
  exact ⟨exchanges, last, hBefore, hTrace, hReset, hConversation⟩

end Monkey
