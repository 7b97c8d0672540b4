-- SUMMARY: A request for a trace changes the trace and nothing else, unless the trace is run.
import LineScript.Proofs.Footprint

/-!
# Verbosity

Two command lines that differ in their requests for a trace only do the same and say the same, and
leave the same disk but for the trace. All that a program file, a stored tree or a line of the loop
can hold can be written, so no trace ends a run. The trace is opened, and so emptied, before
anything is read: the one thing that a request can change is what stands in a program file that is
the trace itself.
-/

namespace LineScript

/-! ## Lines of the loop -/

namespace Repl

/-- What becomes of a line is the same under any trace, and keeps bindings that can be written. -/
theorem answer_of_legible {env : Env} (henv : env.Legible) (level : Int) (settings : Settings)
    (line : List Char) :
    answer level settings env line = answer 0 settings env line ∧
      (answer level settings env line).env.Legible := by
  unfold answer
  cases hsource : Program.ofSource line with
  | error e =>
    refine ⟨rfl, ?_⟩
    simp only
    split <;> exact henv
  | ok tree =>
    have hlegible := (Program.legible_of_ofSource hsource).run settings henv
    simp only [Program.watched_run hsource henv, true_and]
    repeat' split
    all_goals exact hlegible.env

theorem turn_of_legible {env : Env} (henv : env.Legible) (level : Int) (settings : Settings)
    (line : List Char) :
    turn level settings env line = turn 0 settings env line ∧
      ∀ reply ∈ turn level settings env line, reply.env.Legible := by
  obtain ⟨hsame, hlegible⟩ := answer_of_legible henv level settings line
  unfold turn
  split
  · exact ⟨rfl, fun _ h => nomatch h⟩
  · exact ⟨rfl, fun _ h => Option.some.inj h ▸ henv⟩
  · exact ⟨by rw [hsame], fun _ h => Option.some.inj h ▸ hlegible⟩

theorem loop_of_legible (level : Int) (settings : Settings) (interactive : Bool) {env : Env}
    (henv : env.Legible) (lines : List (List Char)) :
    loop level settings interactive env lines = loop 0 settings interactive env lines := by
  induction lines generalizing env with
  | nil => rfl
  | cons line lines ih =>
    obtain ⟨hsame, hlegible⟩ := turn_of_legible henv level settings line
    rw [loop, loop, ← hsame]
    cases hturn : turn level settings env line with
    | none => rfl
    | some reply => simp only [ih (hlegible reply hturn)]

end Repl

namespace Cli

/-! ## Requests on the command line -/

/-- The arguments with some more requests for a trace. -/
@[simps]
def Arguments.louder (k : Nat) (a : Arguments) : Arguments :=
  { a with verbosity := a.verbosity + k }

@[simp] theorem Arguments.louder_mk (k verbosity : Nat) (legacy : Bool)
    (emit stored program : Option String) (surplus : Bool) :
    louder k ⟨verbosity, legacy, emit, stored, program, surplus⟩ =
      ⟨verbosity + k, legacy, emit, stored, program, surplus⟩ := rfl

/-- The same answer to the command line, with some more requests for a trace. -/
@[simp]
def Usage.louder (k : Nat) : Usage → Usage
  | .proceed a => .proceed (a.louder k)
  | .help => .help
  | .version => .version
  | .misuse => .misuse

/-- The same for a reading of the command line that may have ended. -/
@[simp]
def louderReading (k : Nat) : Except Usage Arguments → Except Usage Arguments
  | .ok a => .ok (a.louder k)
  | .error u => .error (u.louder k)

theorem applyFlags_louder (k : Nat) (a : Arguments) (switches : List Switch) :
    applyFlags (a.louder k) switches = louderReading k (applyFlags a switches) := by
  induction switches generalizing a with
  | nil => rfl
  | cons s switches ih =>
    cases s with
    | verbose =>
      rw [applyFlags, applyFlags, ← ih]
      simp [Nat.add_right_comm]
    | legacy => exact ih { a with legacy := true }
    | help | version | emit | stored => rfl

theorem applyValue_louder (k : Nat) (a : Arguments) (s : Switch) (value : String) :
    applyValue (a.louder k) s value = louderReading k (applyValue a s value) := by
  cases s with
  | emit => by_cases h : a.stored.isSome <;> simp [applyValue, h]
  | stored => by_cases h : a.emit.isSome <;> simp [applyValue, h]
  | help | version | verbose | legacy => rfl

theorem applyWords_louder (k : Nat) (a : Arguments) (ws : List Word) :
    applyWords (a.louder k) ws = (applyWords a ws).louder k := by
  fun_induction applyWords a ws with
  | case1 a hsurplus | case2 a hsurplus => simp [applyWords, hsurplus]
  -- words that are no switches
  | case3 a s rest hprogram ih | case4 a s rest hprogram ih => simpa [applyWords, hprogram] using ih
  | case5 a s rest hrest hprogram ih | case6 a s rest hrest hprogram ih =>
    simpa [applyWords, hprogram] using ih
  | case7 a rest hprogram ih | case8 a rest hprogram ih => simpa [applyWords, hprogram] using ih
  -- switches with a value
  | case9 a s value rest b hvalue ih =>
    rw [applyWords, applyValue_louder, hvalue]
    exact ih
  | case10 a s value rest usage hvalue =>
    rw [applyWords, applyValue_louder, hvalue]
    rfl
  | case11 a s value rest htakes b hvalue ih =>
    rw [applyWords, if_pos htakes, applyValue_louder, hvalue]
    exact ih
  | case12 a s value rest htakes usage hvalue =>
    rw [applyWords, if_pos htakes, applyValue_louder, hvalue]
    rfl
  -- switches without one
  | case13 a s value rest htakes b hflags ih =>
    conv_lhs => rw [applyWords, if_neg htakes, applyFlags_louder, hflags]
    exact ih
  | case14 a s value rest htakes usage hflags =>
    rw [applyWords, if_neg htakes, applyFlags_louder, hflags]
    rfl
  | case15 a s rest hrest b hflags ih =>
    rw [applyWords, applyFlags_louder, hflags]
    · exact ih
    · exact hrest
  | case16 a s rest hrest usage hflags =>
    rw [applyWords, applyFlags_louder, hflags]
    · rfl
    · exact hrest
  | case17 a s letters rest hletters => simp [applyWords, hletters]
  | case18 a s letters rest switches hletters b hflags ih =>
    rw [applyWords, hletters]
    simp only
    rw [applyFlags_louder, hflags]
    exact ih
  | case19 a s letters rest switches hletters usage hflags =>
    rw [applyWords, hletters]
    simp only
    rw [applyFlags_louder, hflags]
    rfl
  -- words that mean nothing
  | case20 a rest ih => exact ih
  | case21 a rest => rfl

theorem applyWords_verbose (a : Arguments) (ws : List Word) :
    applyWords a (.switch .verbose none :: ws) = applyWords (a.louder 1) ws := by
  cases ws with
  | nil => rfl
  | cons w ws => cases w <;> rfl

/-- A request in front of a command line changes nothing but their number. -/
theorem Usage.of_verbose (args : List String) :
    Usage.of ("-v" :: args) = (Usage.of args).louder 1 := by
  have hword : Word.of "-v" = .switch .verbose none := by decide
  have hwords : words ("-v" :: args) = .switch .verbose none :: words args := by
    rw [words, if_neg (by decide), hword]
  simp only [Usage.of, hwords, List.contains_cons, applyWords_verbose, applyWords_louder]
  cases (words args).contains .ambiguous <;> rfl

/-! ## Runs under any trace -/

theorem runProgram_of_legible {program : Node} (h : program.Legible) (level : Int)
    (settings : Settings) (before : List Event) :
    runProgram level settings before program = runProgram 0 settings before program := by
  have hwatched : ∀ l : Int, (program.run settings .empty).watched l .empty =
      program.run settings .empty :=
    fun l => Effect.watched_of_legible (h.run settings Env.legible_empty).events l .empty
  rw [runProgram, runProgram, hwatched, hwatched]

theorem runStored_level (level : Int) (settings : Settings) (disk : Disk) (path : Path) :
    runStored level settings disk path = runStored 0 settings disk path := by
  unfold runStored
  repeat' split
  any_goals rfl
  next program hprogram =>
  exact runProgram_of_legible (Node.legible_of_ofStoredText hprogram) level settings []

theorem runFile_level (level : Int) (settings : Settings) (disk : Disk) (path : Path) :
    runFile level settings disk path = runFile 0 settings disk path := by
  unfold runFile
  repeat' split
  any_goals rfl
  next program hprogram =>
  exact runProgram_of_legible (Program.legible_of_ofSource hprogram) level settings _

theorem runLoop_level (level : Int) (settings : Settings) (input : Input) :
    runLoop level settings input = runLoop 0 settings input := by
  simp only [runLoop, Repl.run, Repl.loop_of_legible level settings _ Env.legible_empty]

/-- A run does the same whether or not a trace watches it. -/
theorem runNamed_verbosity (a : Arguments) (verbosity : Nat) (disk : Disk) (input : Input) :
    runNamed { a with verbosity } disk input = runNamed a disk input := by
  simp only [runNamed]
  cases nonempty a.stored with
  | some path =>
    exact (runStored_level verbosity a.settings disk path).trans (runStored_level ..).symm
  | none =>
    cases nonempty a.program with
    | some path =>
      exact (runFile_level verbosity a.settings disk path).trans (runFile_level ..).symm
    | none => exact (runLoop_level verbosity a.settings input).trans (runLoop_level ..).symm

/-! ## What a run reads -/

/-- The file that a run reads. -/
def Arguments.reads? (a : Arguments) : Option Path := (nonempty a.stored).or (nonempty a.program)

/-- A run depends on the disk only through the file that it reads. -/
theorem runNamed_congr {a : Arguments} {d e : Disk} (input : Input)
    (h : ∀ path, a.reads? = some path → d.read path = e.read path) :
    runNamed a d input = runNamed a e input := by
  simp only [Arguments.reads?] at h
  simp only [runNamed]
  cases hstored : nonempty a.stored with
  | some path =>
    have hread := readText_congr (h path (by rw [hstored]; rfl))
    simp only [runStored, hread]
  | none =>
    cases hprogram : nonempty a.program with
    | some path =>
      have hread := readText_congr (h path (by rw [hstored, hprogram]; rfl))
      simp only [runFile, hread]
    | none => rfl

/-- The disk that a run reads from: the trace is opened first, if there is one. -/
def Arguments.seen (a : Arguments) (disk opened : Disk) : Disk :=
  if a.verbosity = 0 then disk else opened

/-- Two runs do the same that both open a trace first or both do not. And it makes no difference
    whether they do, if the file that they read is not the trace. -/
theorem runNamed_seen {a : Arguments} {verbosity : Nat} {disk opened : Disk}
    (hopen : disk.write tracePath "" = .ok opened)
    (hread : (a.verbosity = 0 ↔ verbosity = 0) ∨
      ∀ path, a.reads? = some path → disk.resolve path ≠ .ok tracePlace) (input : Input) :
    runNamed { a with verbosity } (Arguments.seen { a with verbosity } disk opened) input =
      runNamed a (a.seen disk opened) input := by
  rcases hread with hboth | hother
  · have hseen : Arguments.seen { a with verbosity } disk opened = a.seen disk opened := by
      simp only [Arguments.seen, hboth]
    rw [hseen, runNamed_verbosity]
  · -- Opening the trace leaves the file alone that is read.
    have hseen : ∀ b : Arguments, ∀ path, a.reads? = some path →
        (b.seen disk opened).read path = disk.read path := by
      intro b path hpath
      rw [Arguments.seen]
      split
      · rfl
      · refine Disk.read_write_other hopen ?_
        rw [resolve_tracePath]
        exact hother path hpath
    rw [runNamed_verbosity]
    exact runNamed_congr input fun path hpath =>
      (hseen _ path hpath).trans (hseen a path hpath).symm

/-- The result shows what a run leaves behind. -/
structure Result.Shows (f : Finish) (r : Result) : Prop where
  outcome_eq : r.outcome = f.outcome
  stdout_eq : r.stdout = Event.outputOf f.events
  stderr_eq : r.stderr = f.stderr

theorem carryOut_shows {a : Arguments} {disk opened : Disk} (hemit : nonempty a.emit = none)
    (hopen : disk.write tracePath "" = .ok opened) (input : Input) :
    (carryOut a disk input).Shows (runNamed a (a.seen disk opened) input) := by
  simp only [carryOut, hemit, hopen, Arguments.seen]
  split
  · exact ⟨rfl, rfl, rfl⟩
  · obtain ⟨closed, hclosed⟩ := Disk.exists_write_again hopen
      (Event.traceOf a.verbosity (runNamed a opened input).events)
    simp only [hclosed]
    exact ⟨rfl, rfl, rfl⟩

/-! ## The command -/

/-- The two results differ in the trace at most. -/
structure Result.SameButTrace (r s : Result) : Prop where
  outcome_eq : r.outcome = s.outcome
  stdout_eq : r.stdout = s.stdout
  stderr_eq : r.stderr = s.stderr
  disk_same : Disk.SameBut tracePlace r.disk s.disk

/-- More requests for a trace on a command line change nothing but their number. And if two command
    lines differ in this number only, and no directory is in the way of the trace, then what they do
    differs in the trace at most, as long as both or none of them ask for a trace or the file that
    they read is not the trace itself. -/
theorem verbosity_changes_only_the_trace (args args' : List String) (a : Arguments)
    (verbosity : Nat) (hargs : Usage.of args = .proceed a)
    (hargs' : Usage.of args' = .proceed { a with verbosity }) (disk : Disk) (input : Input)
    (hfree : disk.isDirectory tracePlace = false)
    (hread : (a.verbosity = 0 ↔ verbosity = 0) ∨
      ∀ path, a.reads? = some path → disk.resolve path ≠ .ok tracePlace) :
    Usage.of ("-v" :: args) = .proceed { a with verbosity := a.verbosity + 1 } ∧
    (run args disk input).SameButTrace (run args' disk input) := by
  refine ⟨by rw [Usage.of_verbose, hargs]; rfl, ?_⟩
  simp only [run, hargs, hargs']
  cases hemit : nonempty a.emit with
  | some path =>
    simp only [carryOut, hemit]
    exact ⟨rfl, rfl, rfl, .refl _ _⟩
  | none =>
    obtain ⟨opened, hopen⟩ : ∃ opened, disk.write tracePath "" = .ok opened :=
      ⟨_, Disk.write_eq_ok_iff.mpr ⟨_, resolve_tracePath disk, hfree, rfl⟩⟩
    have hshows := carryOut_shows hemit hopen input
    have hshows' := carryOut_shows (a := { a with verbosity }) hemit hopen input
    have hsame := runNamed_seen hopen hread input
    rw [hsame] at hshows'
    have hdisk := (carryOut_sameBut hemit disk input).1
    have hdisk' := (carryOut_sameBut (a := { a with verbosity }) hemit disk input).1
    exact ⟨hshows.outcome_eq.trans hshows'.outcome_eq.symm,
      hshows.stdout_eq.trans hshows'.stdout_eq.symm,
      hshows.stderr_eq.trans hshows'.stderr_eq.symm, hdisk.symm.trans hdisk'⟩

/-- A program that fails after some output, in the old dialect, without a trace and with one. -/
theorem verbosity_changes_only_the_trace_of_failing_program :
    (run ["--legacy-operators", "lib/p.plinth"] oneProgram .none).SameButTrace
      (run ["-vv", "lib/p.plinth", "-v", "--legacy-operators"] oneProgram .none) :=
  (verbosity_changes_only_the_trace _ _
    { Arguments.none with legacy := true, program := some "lib/p.plinth" } 3 (by decide +kernel)
    (by decide +kernel) oneProgram .none (by decide +kernel) (.inr (by decide +kernel))).2

/-- A directory with nothing in it but a program in the place of the trace. -/
def programInTrace : Disk where
  files := [(tracePlace, "print 1\n".toUTF8)]
  directories := []

/-- A request for a trace empties the program before it is read. -/
theorem verbosity_changes_program_in_trace :
    (∃ content, programInTrace.entry tracePlace = .file content) ∧
    Usage.of ["debug.txt"] = .proceed { Arguments.none with program := some "debug.txt" } ∧
    Usage.of ["-v", "debug.txt"] =
      .proceed { Arguments.none with verbosity := 1, program := some "debug.txt" } ∧
    (run ["debug.txt"] programInTrace .none).stdout = "1\n" ∧
    (run ["-v", "debug.txt"] programInTrace .none).stdout = "" := by
  refine ⟨⟨_, rfl⟩, ?_, ?_, ?_, ?_⟩
  all_goals decide +kernel

end Cli

end LineScript
