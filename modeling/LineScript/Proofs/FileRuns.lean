-- SUMMARY: The command does with a program file what parsing and running its text does.
import LineScript.Proofs.Isolation
import LineScript.Proofs.Storage

/-!
# Runs of program files

A text with tokens can be parsed and run in three ways only: it is malformed, or its run comes to
the end, or its run meets a fault. The command that runs a program file without a trace tells these
three apart by its exit status and its two outputs, and there is no other way for it to end.
-/

namespace LineScript

/-- A fault that a program of source text can meet is told on a single line. -/
theorem Fault.IsProper.newline_notMem_text {f : Fault} (h : f.IsProper) : '\n' ∉ f.text.toList := by
  have hname : ∀ t : ValueType, '\n' ∉ t.name.toList := by
    intro t
    cases t <;> decide
  cases f with
  | typeMismatch expected actual =>
    refine Text.newline_notMem_append (Text.newline_notMem_append ?_ (by decide)) (hname actual)
    exact Text.newline_notMem_append (by simp only [kind]; decide) (hname expected)
  | unknownMethod name => exact h.elim
  | divisionByZero op =>
    simp only [text, kind]
    split <;> decide

namespace Cli

/-! ## Endings -/

/-- How the command ends with a program file. -/
inductive Ending where
  | returned (output : String)
  | malformed (message : String)
  | faulted (output text : String)

namespace Ending

/-- What the command leaves behind. -/
def result (disk : Disk) : Ending → Result
  | .returned output => ⟨.ok 0, output, "", disk⟩
  | .malformed message => ⟨.ok 1, "", "Parse error: " ++ message ++ "\n", disk⟩
  | .faulted output text => ⟨.ok 1, output, "Runtime error: " ++ text ++ "\n", disk⟩

/-- What is told about an error. -/
def told : Ending → String
  | .returned _ => ""
  | .malformed message => message
  | .faulted _ text => text

theorem report_ne_report (message text : String) :
    "Parse error: " ++ message ≠ "Runtime error: " ++ text := by
  intro h
  have hfirst := congrArg (·.toList.head?) h
  simp at hfirst

/-- The three endings can be told apart, and so can the errors. -/
theorem result_injective (disk : Disk) : Function.Injective (result disk) := by
  intro x y h
  cases x with
  | returned output => cases y <;> simp_all [result]
  | malformed message =>
    cases y with
    | returned output => simp [result] at h
    | malformed message' => simpa [result] using h
    | faulted output text => simp [result, report_ne_report] at h
  | faulted output text =>
    cases y with
    | returned output' => simp [result] at h
    | malformed message => simp [result, (report_ne_report _ _).symm] at h
    | faulted output' text' => simpa [result] using h

end Ending

/-- How parsing and running a text ends, with the output up to there. -/
inductive Ends (dialect : Dialect) (source : List Char) : Ending → Prop
  | returned {effect : Effect} {v : Value} : runSource dialect source = .ok effect →
      effect.result = .ok v → Ends dialect source (.returned (Event.outputOf effect.events))
  | malformed {t : Token} {expected : Option Expected} :
      Program.ofSource source = .error (.unexpected t expected) →
      Ends dialect source (.malformed (ParseError.unexpectedText t expected))
  | faulted {effect : Effect} {f : Fault} : runSource dialect source = .ok effect →
      effect.result = .error (.fault f) →
      Ends dialect source (.faulted (Event.outputOf effect.events) f.text)

theorem runSource_eq_ok_iff {dialect : Dialect} {source : List Char} {effect : Effect} :
    runSource dialect source = .ok effect ↔
      ∃ tree, Program.ofSource source = .ok tree ∧ tree.run (.new dialect) .empty = effect := by
  unfold runSource
  cases Program.ofSource source <;> simp [Except.map]

/-- A text with tokens ends in one of the three ways, and an error is told on a single line. -/
theorem exists_ends (dialect : Dialect) {source : List Char} (h : Token.HasShortRuns source) :
    ∃ ending, Ends dialect source ending ∧ '\n' ∉ ending.told.toList := by
  rcases Program.ofSource_of_hasShortRuns h with ⟨body, hbody⟩ | ⟨t, expected, herror⟩
  · have hrun : runSource dialect source = .ok ((Node.program body).run (.new dialect) .empty) :=
      runSource_eq_ok_iff.mpr ⟨_, hbody, rfl⟩
    have hsafe : Safe ((Node.program body).run (.new dialect) .empty).result :=
      (Node.safe_run rfl Env.wellFormed_empty (Program.regular_of_ofSource hbody)).2
    cases hr : ((Node.program body).run (.new dialect) .empty).result with
    | ok v => exact ⟨_, .returned hrun hr, List.not_mem_nil⟩
    | error e =>
      rw [hr] at hsafe
      cases e with
      | fault f => exact ⟨_, .faulted hrun hr, hsafe.newline_notMem_text⟩
      | _ => exact hsafe.elim
  · exact ⟨_, .malformed herror, Program.newline_notMem_of_unexpected herror⟩

/-! ## The command -/

/-- What a run without a trace leaves behind. -/
def Finish.untraced (f : Finish) (disk : Disk) : Result :=
  ⟨f.outcome, Event.outputOf f.events, f.stderr, disk⟩

theorem runFile_of_ends {dialect : Dialect} {disk : Disk} {path : Path} {source : List Char}
    {ending : Ending} (hread : readText disk path = .ok source)
    (h : Ends dialect source ending) :
    (runFile 0 (.new dialect) disk path).untraced disk = ending.result disk := by
  cases h with
  | malformed herror =>
    simp only [runFile_of_unexpected hread herror, Finish.untraced, Event.outputOf_parsed,
      Ending.result]
  | returned hrun hresult =>
    obtain ⟨tree, htree, rfl⟩ := runSource_eq_ok_iff.mp hrun
    simp only [runFile_of_ok hread htree, runProgram, Effect.watched_of_nonpos (Int.le_refl 0),
      hresult, Finish.untraced, Event.outputOf_append, Event.outputOf_parsed, String.empty_append,
      Ending.result]
  | faulted hrun hresult =>
    obtain ⟨tree, htree, rfl⟩ := runSource_eq_ok_iff.mp hrun
    simp only [runFile_of_ok hread htree, runProgram, Effect.watched_of_nonpos (Int.le_refl 0),
      hresult, RunError.report?, Finish.untraced, Event.outputOf_append, Event.outputOf_parsed,
      String.empty_append, Ending.result]

/-- The command line asks to run the program file at the path, without a trace. -/
def AsksToRun (args : List String) (path : Path) (dialect : Dialect) : Prop :=
  ∃ a, Usage.of args = .proceed a ∧ a.verbosity = 0 ∧ a.settings = .new dialect ∧
    nonempty a.emit = none ∧ nonempty a.stored = none ∧ nonempty a.program = some path

theorem AsksToRun.run_eq {args : List String} {path : Path} {dialect : Dialect}
    (h : AsksToRun args path dialect) (disk : Disk) (input : Input) :
    run args disk input = (runFile 0 (.new dialect) disk path).untraced disk := by
  obtain ⟨a, hargs, hquiet, hsettings, hemit, hstored, hprogram⟩ := h
  simp only [run, hargs, carryOut, hemit, hquiet, if_true, runNamed, hstored, hprogram, hsettings]
  rfl

/-- The command ends with a program file exactly as parsing and running its text does, in the same
    dialect: for every ending, it leaves behind what belongs to that ending if and only if that is
    how the text ends. And the text does end in one of the three ways, with an error that is told
    on a single line. -/
theorem file_runs_as_its_text (args : List String) (path : Path) (dialect : Dialect) (disk : Disk)
    (input : Input) (source : List Char) (hargs : AsksToRun args path dialect)
    (hread : readText disk path = .ok source)
    (htokens : ∃ tokens, Token.tokenize? source = some tokens) :
    (∀ ending, run args disk input = Ending.result disk ending ↔ Ends dialect source ending) ∧
    ∃ ending, Ends dialect source ending ∧ '\n' ∉ ending.told.toList := by
  have hends : ∀ ending, Ends dialect source ending →
      run args disk input = Ending.result disk ending :=
    fun ending h => (hargs.run_eq disk input).trans (runFile_of_ends hread h)
  obtain ⟨ending, hending, hline⟩ := exists_ends dialect (Token.exists_tokenize?_iff.mp htokens)
  refine ⟨fun other => ⟨fun hrun => ?_, hends other⟩, ending, hending, hline⟩
  obtain rfl := Ending.result_injective disk ((hends ending hending).symm.trans hrun)
  exact hending

/-- A program that fails after some output, in the old dialect, where `1 <= 2` is false. -/
theorem file_runs_as_its_text_failing_print :
    Ends .legacy "x = 1 <= 2\nprint x, x / 0\n".toList
      (.faulted "false\n" "TypeMismatch: expected Boolean, got Integer") := by
  have hargs : AsksToRun ["--legacy-operators", "lib/p.plinth"] (.ofString "lib/p.plinth")
      .legacy :=
    ⟨{ Arguments.none with legacy := true, program := some "lib/p.plinth" }, by decide +kernel, rfl,
      rfl, rfl, rfl, by decide +kernel⟩
  have hread : readText oneProgram (.ofString "lib/p.plinth") =
      .ok "x = 1 <= 2\nprint x, x / 0\n".toList := by
    decide +kernel
  have htokens : ∃ tokens, Token.tokenize? "x = 1 <= 2\nprint x, x / 0\n".toList = some tokens :=
    Option.isSome_iff_exists.mp (by decide +kernel)
  refine ((file_runs_as_its_text _ _ _ _ .none _ hargs hread htokens).1 _).mp ?_
  rw [hargs.run_eq, Finish.untraced, Ending.result, Result.mk.injEq]
  refine ⟨?_, ?_, ?_, rfl⟩
  all_goals decide +kernel

end Cli

end LineScript
