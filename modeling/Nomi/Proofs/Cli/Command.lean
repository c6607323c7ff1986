import Nomi.Proofs.Cli.Console
import Nomi.Proofs.Eval.Clock
import Nomi.Proofs.Eval.Soundness
import Nomi.Proofs.Syntax.Sources

/-!
# What a command leaves

A command that runs a program prints what a run of its source writes, and exits as the
run ends.  The modes that print tokens or a tree depend on the source alone, and an error
of a source is reported alike in every mode that comes to it.
-/

namespace Nomi

def Failure.diagnostic? : Failure → Option Diagnostic
  | .source error => some (.ofSource error)
  | .scope error => some (.ofScope error)
  | .operation cause position => some (.ofOperation cause position)
  | .cancelled | .interrupted | .tooDeep | .fault _ => none

namespace Utf8

theorem decodeFrom_ascii {text : List Char} (h : text.all (·.toNat < 0x80) = true)
    (offset : Nat) : decodeFrom offset (text.map fun c => UInt8.ofNat c.toNat) = .ok text := by
  induction text generalizing offset with
  | nil => rw [List.map_nil, decodeFrom]
  | cons c rest ih =>
      simp only [List.all_cons, Bool.and_eq_true, decide_eq_true_eq] at h
      have hbyte : (UInt8.ofNat c.toNat).toNat = c.toNat := by
        rw [UInt8.toNat_ofNat']
        omega
      rw [List.map_cons, decodeFrom]
      simp only [hbyte, sequence, h.1, if_true, List.drop_zero, ih h.2, Except.map,
        Char.ofNat_toNat]

/-- The characters of ASCII are their own bytes. -/
theorem decode_ascii {text : List Char} (h : text.all (·.toNat < 0x80) = true) :
    decode (text.map fun c => UInt8.ofNat c.toNat) = .ok text :=
  decodeFrom_ascii h 0

end Utf8

namespace Cli

/-! ## Requests -/

def Mode.words : Mode → List String
  | .run => []
  | .tokens => ["--tokens"]
  | .ast => ["--ast"]

/-- Whether a folder holds a program under a name: a name that the command line takes for
that of a file, with the ending of programs, and bytes that are the text of the program
once its line breaks are unified. -/
structure ProgramFile (folder : Folder) (file source : String) : Prop where
  operand : classify file = .ok (.operand file)
  suffix : file.endsWith suffix = true
  text : ∃ bytes text, folder.read file = .ok bytes ∧ Utf8.decode bytes = .ok text ∧
    source = String.ofList (Lines.unify text)

theorem classifyAll_cons {text : String} {word : Word} {rest : List String} {words : List Word}
    (hmarker : text ≠ "--") (hword : classify text = .ok word)
    (hrest : classifyAll rest = .ok words) : classifyAll (text :: rest) = .ok (word :: words) := by
  simp [classifyAll, hword, hrest, bind, Except.bind, pure, Except.pure]

/-- A command line of a mode and a file is read as what it says. -/
theorem readArguments_words {file : String} (h : classify file = .ok (.operand file))
    (mode : Mode) : readArguments (mode.words ++ [file]) = .ok (.execute mode file) := by
  -- a `--` by itself is no operand to the classifier, which finds it short for every flag
  have hmarker : file ≠ "--" := by
    rintro rfl
    contradiction
  have hfile : classifyAll [file] = .ok [.operand file] := classifyAll_cons hmarker h rfl
  have hread : ∀ {words : List Word}, classifyAll (mode.words ++ [file]) = .ok words →
      readArguments (mode.words ++ [file]) = readWords .start words := by
    intro words hwords
    rw [readArguments, hwords]
    rfl
  cases mode with
  | run => exact hread hfile
  | tokens =>
      have hflag : classify "--tokens" = .ok (.flag .tokens false none) := rfl
      exact hread (classifyAll_cons (by decide) hflag hfile)
  | ast =>
      have hflag : classify "--ast" = .ok (.flag .ast false none) := rfl
      exact hread (classifyAll_cons (by decide) hflag hfile)

/-- With a program, a command does what its mode asks for. -/
theorem ProgramFile.command_eq {folder : Folder} {file source : String}
    (h : ProgramFile folder file source) (style : Style) (host : Host) (mode : Mode)
    (stdin : String) :
    command style host folder (mode.words ++ [file]) stdin =
      execute style host mode source (Lines.ofInput stdin) := by
  obtain ⟨bytes, text, hread, hdecode, rfl⟩ := h.text
  have hrequested : requested style (mode.words ++ [file]) = .ok (mode, file) := by
    simp only [requested, readArguments_words h.operand, h.suffix, if_true]
  simp only [command, hrequested, sourceOf, hread, hdecode]

/-! ## Reports -/

def printed (lines : List String) : String :=
  String.join (lines.map (· ++ "\n"))

/-- What is said about an error of the language: its own line, and the line of the source
that it is on, if there is one. -/
def errorLines (style : Style) (source : String) (diagnostic : Diagnostic) : List String :=
  diagnostic.format style :: [diagnostic.underline style source].filter (!·.isEmpty)

/-- The exit code of a command after a run, and what it says about the run. -/
inductive Exits (style : Style) (source : String) : Outcome → Nat → List String → Prop
  | value (value : Value) : Exits style source (.ok value) 0 []
  | cancelled : Exits style source (.error .cancelled) 0 [cancelledMessage]
  | tooDeep : Exits style source (.error .tooDeep) 1
      [style.alarm "error: " ++ "maximum recursion depth exceeded"]
  | error {failure : Failure} {diagnostic : Diagnostic}
      (h : failure.diagnostic? = some diagnostic) :
      Exits style source (.error failure) 1 (errorLines style source diagnostic)

/-- Whether a report is one of a run: it has printed what the run wrote, line by line, and
exits as the run ends. -/
def Reports (style : Style) (source : String) (run : Outcome × World) (report : Report) : Prop :=
  ∃ exitCode complaints, Exits style source run.1 exitCode complaints ∧
    report = ⟨exitCode, printed run.2.output.toList, printed complaints⟩

variable {style : Style} {source : String}

theorem printed_singleton (line : String) : printed [line] = line ++ "\n" := by
  simp [printed]

theorem errorText_eq (style : Style) (source : String) (diagnostic : Diagnostic) :
    errorText style source diagnostic = printed (errorLines style source diagnostic) := by
  unfold errorText errorLines printed
  by_cases h : (diagnostic.underline style source).isEmpty
  · simp [h]
  · simp [h]

/-- What shows the same has the same report, if it does not end in a way that no program
does. -/
theorem reports_runReport {result run : Outcome × World} {host : Host} (h : ShowSame result run)
    (hforeseen : run.1.Foreseen host) (hending : host.ending = .cancels) :
    Reports style source run (runReport style source result) := by
  obtain ⟨outcome, world⟩ := result
  obtain ⟨ending, last⟩ := run
  have hwritten : written world = printed last.output.toList := by
    have houtput : world.output = last.output := h.output
    rw [written, houtput]
    rfl
  have hend : outcome.map Value.render? = ending.map Value.render? := h.ending
  have hdiagnosis : ∀ diagnostic, diagnosis style source (written world) diagnostic =
      ⟨1, printed last.output.toList, printed (errorLines style source diagnostic)⟩ := by
    intro diagnostic
    rw [diagnosis, errorText_eq, hwritten]
  cases ending with
  | ok value =>
      cases outcome with
      | error failure => contradiction
      | ok found => exact ⟨0, [], .value value, by rw [runReport, hwritten]; rfl⟩
  | error failure =>
      cases outcome with
      | ok found => contradiction
      | error found =>
          obtain rfl : found = failure := Except.error.inj hend
          cases found with
          | source | scope | operation => exact ⟨1, _, .error rfl, hdiagnosis _⟩
          | cancelled =>
              refine ⟨0, _, .cancelled, ?_⟩
              rw [printed_singleton, ← hwritten]
              rfl
          | tooDeep =>
              refine ⟨1, _, .tooDeep, ?_⟩
              rw [printed_singleton, ← hwritten]
              rfl
          | interrupted =>
              have hinterrupts : host.ending = .interrupts := hforeseen
              rw [hending] at hinterrupts
              contradiction
          | fault fault => exact hforeseen.elim

/-- The modes that run nothing succeed with what they print. -/
theorem tokensReport_exitCode :
    (tokensReport style source).exitCode = 0 ↔ ∃ tokens, tokenize source = .ok tokens := by
  unfold tokensReport
  cases tokenize source with
  | ok tokens => simp
  | error error => simp [diagnosis]

theorem astReport_exitCode :
    (astReport style source).exitCode = 0 ↔ ∃ program, parse source = .ok program := by
  unfold astReport
  cases parse source with
  | ok program => simp
  | error error => simp [diagnosis]

/-- An error of a source is reported alike in every mode that parses the source. -/
theorem execute_of_error {error : SourceError} (h : parse source = .error error) {mode : Mode}
    (hmode : mode ≠ .tokens) (host : Host) (input : List String) :
    execute style host mode source input =
      ⟨1, "", printed (errorLines style source (.ofSource error))⟩ := by
  have hdiagnosis : diagnosis style source "" (.ofSource error) =
      ⟨1, "", printed (errorLines style source (.ofSource error))⟩ := by
    rw [diagnosis, errorText_eq]
  cases mode with
  | tokens => exact absurd rfl hmode
  | ast => simp only [execute, astReport, h, hdiagnosis]
  | run =>
      simp only [execute, run, step, h, runReport, failureReport]
      exact hdiagnosis

/-- An error of the scanner is reported alike in every mode. -/
theorem execute_of_refused {error : LexicalError} (h : tokenize source = .error error)
    (mode : Mode) (host : Host) (input : List String) :
    execute style host mode source input =
      ⟨1, "", printed (errorLines style source (.ofLexical error))⟩ := by
  by_cases hmode : mode = .tokens
  · subst hmode
    simp only [execute, tokensReport, h, diagnosis, errorText_eq]
  · exact execute_of_error (parse_of_refused h) hmode host input

/-- A console goes through the run of a source in step.  At the end it has printed what
the run wrote, and when the run ended for want of input nothing is left to read. -/
theorem attends_run (host : Host) (source stdin : String) :
    let result := run host source (Lines.ofInput stdin)
    ∃ last, Console.Attends ⟨stdin.toList, ""⟩
        (stepMoments host source (.initial (Lines.ofInput stdin))) last ∧
      last.stdout = printed result.2.output.toList ∧
      (result.1 = .error host.ending.failure → last.read? = none) := by
  intro result
  have hpath := path_step host source (.initial (Lines.ofInput stdin))
  have hstart : Console.InStep ⟨stdin.toList, ""⟩ (.initial (Lines.ofInput stdin)) :=
    ⟨by rw [String.ofList_toList]; rfl, rfl⟩
  obtain ⟨last, hattends, hlast⟩ := hstart.attends hpath
  refine ⟨last, hattends, hlast.output, fun hends => hlast.read?_eq_none ?_⟩
  exact step_spent hends

/-! ## Commands -/

/--
The command line does what a run of the source does.

The file is a program under a name that the command line takes for that of a file.  Where
the run on the lines of the input never calls `time`, the command prints the lines that the
run writes and exits as the run ends, whatever the clock, and its console is in step with
the run at every moment.  Printing the tokens succeeds where the source has tokens, and
printing the tree where it has a tree; neither depends on a host or on an input.  An error
of the source is reported alike in every mode that comes to it, with nothing printed before.
-/
theorem command_follows_run (style : Style) (clock now : Float) {folder : Folder}
    {file source : String} (h : ProgramFile folder file source) (stdin : String) :
    let console : Host := ⟨clock, .cancels⟩
    let scripted : Host := ⟨now, .cancels⟩
    let input := Lines.ofInput stdin
    let result := run scripted source input
    let report := fun mode : Mode => command style console folder (mode.words ++ [file]) stdin
    (¬ CallsTime scripted source input →
      Reports style source result (report .run) ∧
      ∃ last, Console.Attends ⟨stdin.toList, ""⟩
          (stepMoments console source (.initial input)) last ∧
        last.stdout = (report .run).stdout ∧
        (result.1 = .error .cancelled → last.read? = none)) ∧
    ((report .tokens).exitCode = 0 ↔ ∃ tokens, tokenize source = .ok tokens) ∧
    ((report .ast).exitCode = 0 ↔ ∃ program, parse source = .ok program) ∧
    (∀ mode, mode ≠ .run → ∀ (host : Host) (text : String),
      command style host folder (mode.words ++ [file]) text = report mode) ∧
    (∀ error, tokenize source = .error error → ∀ mode,
      report mode = ⟨1, "", printed (errorLines style source (.ofLexical error))⟩) ∧
    ∀ error, parse source = .error error → ∀ mode, mode ≠ .tokens →
      report mode = ⟨1, "", printed (errorLines style source (.ofSource error))⟩ := by
  intro console scripted input result report
  have hreport : ∀ mode, report mode = execute style console mode source input :=
    fun mode => h.command_eq style console mode stdin
  refine ⟨fun htime => ?_, ?_, ?_, ?_, ?_, ?_⟩
  · have hending : console.ending = scripted.ending := rfl
    have hsame : ShowSame (run console source input) result := clock_immaterial hending htime
    have hforeseen : result.1.Foreseen scripted :=
      (step_spec scripted source Store.sound_initial).1
    have hreports : Reports style source result (report .run) := by
      rw [hreport]
      exact reports_runReport hsame hforeseen rfl
    obtain ⟨last, hattends, hprinted, hspent⟩ := attends_run console source stdin
    refine ⟨hreports, last, hattends, ?_, ?_⟩
    · obtain ⟨exitCode, complaints, _, hprints⟩ := hreports
      rw [hprinted, hprints, hsame.output]
    · intro hcancelled
      have hends : (run console source input).1 = .error console.ending.failure :=
        hsame.failed hcancelled
      exact hspent hends
  · rw [hreport]
    exact tokensReport_exitCode
  · rw [hreport]
    exact astReport_exitCode
  · intro mode hmode host text
    rw [hreport, h.command_eq]
    cases mode with
    | run => exact absurd rfl hmode
    | tokens | ast => rfl
  · intro error herror mode
    rw [hreport]
    exact execute_of_refused herror mode console input
  · intro error herror mode hmode
    rw [hreport]
    exact execute_of_error herror hmode console input

/-- A program that writes the only line of the input and reads another. -/
theorem command_follows_run_reading :
    let source := "let x=read;print(x);read x;"
    let bytes := source.toList.map fun c => UInt8.ofNat c.toNat
    let folder : Folder := ⟨[("a.nm", bytes)], []⟩
    ProgramFile folder "a.nm" source ∧ ¬ CallsTime ⟨0, .cancels⟩ source (Lines.ofInput "b") ∧
      Reports .plain source (run ⟨0, .cancels⟩ source (Lines.ofInput "b"))
        (command .plain ⟨1, .cancels⟩ folder ["a.nm"] "b") := by
  intro source bytes folder
  have hread : ∀ held, Folder.read ⟨[("a.nm", held)], []⟩ "a.nm" = .ok held := by
    intro held
    with_unfolding_all rfl
  have hdecode : Utf8.decode bytes = .ok source.toList := Utf8.decode_ascii (by decide)
  have hfile : ProgramFile folder "a.nm" source :=
    ⟨rfl, by decide +kernel, bytes, source.toList, hread bytes, hdecode, by decide +kernel⟩
  have hcut : tokenize source = .ok [⟨.letWord, "let", ⟨1, 1⟩⟩, ⟨.identifier, "x", ⟨1, 5⟩⟩,
      ⟨.equals, "=", ⟨1, 6⟩⟩, ⟨.readWord, "read", ⟨1, 7⟩⟩, ⟨.semicolon, ";", ⟨1, 11⟩⟩,
      ⟨.identifier, "print", ⟨1, 12⟩⟩, ⟨.openParen, "(", ⟨1, 17⟩⟩, ⟨.identifier, "x", ⟨1, 18⟩⟩,
      ⟨.closeParen, ")", ⟨1, 19⟩⟩, ⟨.semicolon, ";", ⟨1, 20⟩⟩, ⟨.readWord, "read", ⟨1, 21⟩⟩,
      ⟨.identifier, "x", ⟨1, 26⟩⟩, ⟨.semicolon, ";", ⟨1, 27⟩⟩, .endMark ⟨1, 28⟩] := by decide
  have hparse : parse source = .ok (.program .start
      [.declaration ⟨1, 1⟩ "x" false (.read ⟨1, 7⟩ "x" "string" false),
      .call ⟨1, 12⟩ (.identifier ⟨1, 12⟩ "print") [.identifier ⟨1, 18⟩ "x"],
      .read ⟨1, 21⟩ "x" "string" true]) := parse_of_tokenize hcut rfl
  have hinput : Lines.ofInput "b" = ["b"] := by decide +kernel
  have htime : ¬ CallsTime ⟨0, .cancels⟩ source (Lines.ofInput "b") := by
    have hstep : (step ⟨0, .cancels⟩ source ((World.initial ["b"]).converted .withoutTime)).1 =
        .error .cancelled := by
      rw [step, hparse]
      with_unfolding_all rfl
    rw [CallsTime, hinput, hstep]
    simp [Failure.noTime]
  exact ⟨hfile, htime, ((command_follows_run .plain 1 0 hfile "b").1 htime).1⟩

/-- A program whose name begins with a dash is not run.  The command line takes the name for
that of a flag, and misses a file. -/
theorem command_refuses_dashed :
    let source := "print(\"a\")"
    let bytes := source.toList.map fun c => UInt8.ofNat c.toNat
    let folder : Folder := ⟨[("-.nm", bytes)], []⟩
    "-.nm".endsWith suffix = true ∧ folder.read "-.nm" = .ok bytes ∧
      Utf8.decode bytes = .ok source.toList ∧
      source = String.ofList (Lines.unify source.toList) ∧
      ¬ CallsTime ⟨0, .cancels⟩ source [] ∧
      (run ⟨0, .cancels⟩ source []).1 = .ok .null ∧
      (command .plain ⟨0, .cancels⟩ folder ["-.nm"] "").exitCode = 2 := by
  intro source bytes folder
  have hcut : tokenize source = .ok [⟨.identifier, "print", ⟨1, 1⟩⟩, ⟨.openParen, "(", ⟨1, 6⟩⟩,
      ⟨.string, "a", ⟨1, 7⟩⟩, ⟨.closeParen, ")", ⟨1, 10⟩⟩, .endMark ⟨1, 11⟩] := by decide
  have hparse : parse source = .ok (.program .start
      [.call ⟨1, 1⟩ (.identifier ⟨1, 1⟩ "print") [.string ⟨1, 7⟩ "a"]]) :=
    parse_of_tokenize hcut rfl
  have hdecode : Utf8.decode bytes = .ok source.toList := Utf8.decode_ascii (by decide)
  have hread : ∀ held, Folder.read ⟨[("-.nm", held)], []⟩ "-.nm" = .ok held := by
    intro held
    with_unfolding_all rfl
  refine ⟨by decide +kernel, hread bytes, hdecode, by decide +kernel, ?_, ?_, rfl⟩
  · have hstep : (step ⟨0, .cancels⟩ source ((World.initial []).converted .withoutTime)).1 =
        .ok .null := by
      rw [step, hparse]
      with_unfolding_all rfl
    rw [CallsTime, hstep]
    simp
  · rw [run, step, hparse]
    with_unfolding_all rfl

end Cli

end Nomi
