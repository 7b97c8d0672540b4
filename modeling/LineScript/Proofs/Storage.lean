-- SUMMARY: A stored program is the program, and running the stored tree is running the source.
import LineScript.Cli.Command
import LineScript.Proofs.Files
import LineScript.Proofs.Interaction
import LineScript.Proofs.StoredTrees

/-!
# Storage

The stored form of a tree that comes from source text is legible, so the tree is read back from its
stored text. A command that stores a program file leaves the file and its stored tree side by side
on the disk, and from then on a run of the one and a run of the other differ in the notes of the
parser only, which traces show from level three on.
-/

namespace LineScript

/-! ## Stored text -/

namespace Node

theorem toList_storedText (n : Node) :
    n.storedText.toList = Json.write .indented 0 n.toJson [] := String.toList_ofList

theorem ofStoredText_storedText {n : Node} (h : n.toJson.Legible) :
    ofStoredText n.storedText.toList = .ok n := by
  rw [ofStoredText, toList_storedText, Json.read_write h Json.Layout.indented_isBlank]
  simp only [ofJson_toJson]
  rfl

theorem unifyNewlines_storedText {n : Node} (h : n.toJson.Legible) :
    Text.unifyNewlines n.storedText.toList = n.storedText.toList := by
  rw [toList_storedText, Json.unifyNewlines_write h Json.Layout.indented_isBlank]

end Node

/-! ## Traces without parser notes -/

theorem Event.traceOf_parsed {level : Int} (hlevel : level ≤ 2) (notes : List Program.Note)
    (events : List Event) :
    traceOf level (notes.map Event.parsed ++ events) = traceOf level events := by
  have hnotes : (notes.map Event.parsed).filter (writtenAt level) = [] := by
    refine List.filter_eq_nil_iff.mpr fun e he => ?_
    obtain ⟨note, -, rfl⟩ := List.mem_map.mp he
    simp [writtenAt, shownAt, level?]
    omega
  rw [traceOf, List.filter_append, hnotes, List.nil_append, traceOf]

namespace Cli

/-- The runs end in the same way and show the same, up to traces of level two. -/
structure Finish.Agrees (f g : Finish) : Prop where
  outcome_eq : f.outcome = g.outcome
  stderr_eq : f.stderr = g.stderr
  output_eq : Event.outputOf f.events = Event.outputOf g.events
  trace_eq : ∀ level : Int, level ≤ 2 → Event.traceOf level f.events = Event.traceOf level g.events

theorem runProgram_agrees (level : Int) (settings : Settings) (notes : List Program.Note)
    (program : Node) :
    (runProgram level settings [] program).Agrees
      (runProgram level settings (notes.map Event.parsed) program) := by
  have houtput : ∀ events, Event.outputOf ([] ++ events) =
      Event.outputOf (notes.map Event.parsed ++ events) := by
    intro events
    rw [List.nil_append, Event.outputOf_append, Event.outputOf_parsed, String.empty_append]
  have htrace : ∀ events, ∀ level : Int, level ≤ 2 → Event.traceOf level ([] ++ events) =
      Event.traceOf level (notes.map Event.parsed ++ events) :=
    fun events level hlevel => (Event.traceOf_parsed hlevel notes events).symm
  simp only [runProgram]
  split
  · exact ⟨rfl, rfl, houtput _, htrace _⟩
  split
  · exact ⟨rfl, rfl, houtput _, htrace _⟩
  · exact ⟨rfl, rfl, houtput _, htrace _⟩

theorem runFile_of_ok {disk : Disk} {path : Path} {source : List Char} {tree : Node}
    (hread : readText disk path = .ok source) (h : Program.ofSource source = .ok tree)
    (level : Int) (settings : Settings) :
    runFile level settings disk path =
      runProgram level settings ((Program.sourceNotes source).map Event.parsed) tree := by
  simp only [runFile, hread, h]

/-! ## Side by side -/

/-- The disk holds the text of a program at the path, and its stored tree beside it. -/
structure HoldsBoth (disk : Disk) (path : Path) (source : List Char) (tree : Node) : Prop where
  parses : Program.ofSource source = .ok tree
  source_text : readText disk path = .ok source
  stored_text : readText disk (path.extend storedSuffix) = .ok tree.storedText.toList

theorem HoldsBoth.agrees {disk : Disk} {path : Path} {source : List Char} {tree : Node}
    (h : HoldsBoth disk path source tree) (level : Int) (settings : Settings) :
    (runStored level settings disk (path.extend storedSuffix)).Agrees
      (runFile level settings disk path) := by
  have hread := Node.ofStoredText_storedText (Program.legible_toJson_of_ofSource h.parses)
  have hstored : runStored level settings disk (path.extend storedSuffix) =
      runProgram level settings [] tree := by
    simp only [runStored, h.stored_text, hread]
  rw [hstored, runFile_of_ok h.source_text h.parses]
  exact runProgram_agrees level settings _ tree

theorem readText_congr {d e : Disk} {path : Path} (h : d.read path = e.read path) :
    readText d path = readText e path := by
  rw [readText, readText, h]

theorem readText_of_read {d : Disk} {path : Path} {text : String}
    (h : d.read path = .ok text.toUTF8) :
    readText d path = .ok (Text.unifyNewlines text.toList) := by
  have hdecode : String.fromUTF8? text.toUTF8 = some text := dif_pos text.isValidUTF8
  simp only [readText, h, hdecode]

theorem append_storedSuffix_ne (name : String) : name ++ storedSuffix ≠ name := by
  intro h
  have hlength := congrArg String.length h
  simp [storedSuffix] at hlength

/-- Storing writes the tree of a program file and tells where, or it fails and does nothing. If the
    file is a program, then only the writing can fail. -/
theorem emit_cases (disk : Disk) (path : Path) :
    (∃ source tree after, readText disk path = .ok source ∧ Program.ofSource source = .ok tree ∧
      disk.write (path.extend storedSuffix) tree.storedText = .ok after ∧
      emit disk path = ⟨.ok 0, (path.extend storedSuffix).render ++ "\n", "", after⟩) ∨
    ∃ outcome stderr, emit disk path = ⟨outcome, "", stderr, disk⟩ ∧ outcome ≠ .ok 0 ∧
      ∀ source tree, readText disk path = .ok source → Program.ofSource source = .ok tree →
        ∃ e, disk.write (path.extend storedSuffix) tree.storedText = .error e ∧
          outcome = .error (.disk e) := by
  cases hsource : readText disk path with
  | error f =>
    refine .inr ?_
    unfold emit
    rw [hsource]
    split
    · exact ⟨_, _, rfl, by simp, nofun⟩
    · exact ⟨_, _, rfl, nofun, nofun⟩
    · next heq => cases heq
  | ok source =>
    cases htree : Program.ofSource source with
    | error e =>
      simp only [emit, hsource, htree]
      have hno : ∀ tree, Program.ofSource source ≠ .ok tree := by simp [htree]
      refine .inr ?_
      split
      · exact ⟨_, _, rfl, by simp, by rintro _ tree ⟨⟩ h; exact absurd h (hno tree)⟩
      · exact ⟨_, _, rfl, nofun, by rintro _ tree ⟨⟩ h; exact absurd h (hno tree)⟩
    | ok tree =>
      cases hwrite : disk.write (path.extend storedSuffix) tree.storedText with
      | error e =>
        simp only [emit, hsource, htree, hwrite]
        refine .inr ⟨_, _, rfl, nofun, ?_⟩
        rintro _ _ ⟨⟩ htree'
        obtain rfl := Except.ok.inj (htree.symm.trans htree')
        exact ⟨e, hwrite, rfl⟩
      | ok after =>
        refine .inl ⟨source, tree, after, rfl, htree, hwrite, ?_⟩
        simp only [emit, hsource, htree, hwrite]

/-- Storing succeeds only if the file is a program and its tree is written. -/
theorem emit_eq_ok {disk : Disk} {path : Path} (h : (emit disk path).outcome = .ok 0) :
    ∃ source tree, readText disk path = .ok source ∧ Program.ofSource source = .ok tree ∧
      disk.write (path.extend storedSuffix) tree.storedText = .ok (emit disk path).disk := by
  rcases emit_cases disk path with ⟨source, tree, after, hsource, htree, hwrite, hemit⟩ |
    ⟨outcome, stderr, hemit, houtcome, -⟩
  · rw [hemit]
    exact ⟨source, tree, hsource, htree, hwrite⟩
  · rw [hemit] at h
    exact absurd h houtcome

/-- Writing the tree of a program file leaves the file and its stored tree side by side. -/
theorem HoldsBoth.of_write {disk after : Disk} {path : Path} {source : List Char} {tree : Node}
    (hsource : readText disk path = .ok source) (htree : Program.ofSource source = .ok tree)
    (hwrite : disk.write (path.extend storedSuffix) tree.storedText = .ok after) :
    HoldsBoth after path source tree := by
  refine ⟨htree, ?_, ?_⟩
  · obtain ⟨target, htarget⟩ := Disk.exists_getLast?_of_write hwrite
    have hne : path.names.getLast? ≠ (path.extend storedSuffix).names.getLast? := by
      rw [Path.getLast?_extend] at htarget ⊢
      obtain ⟨name, hname, -⟩ := Option.map_eq_some_iff.mp htarget
      simp [hname, (append_storedSuffix_ne name).symm]
    rw [readText_congr (Disk.read_write_other hwrite (Disk.resolve_ne_of_getLast?_ne hwrite hne)),
      hsource]
  · rw [readText_of_read (Disk.read_write_self hwrite),
      Node.unifyNewlines_storedText (Program.legible_toJson_of_ofSource htree)]

theorem getLast?_tracePath : tracePath.names.getLast? = some "debug.txt" := by decide

/-- No stored tree has the name of the trace. -/
theorem getLast?_extend_ne_tracePath (path : Path) :
    (path.extend storedSuffix).names.getLast? ≠ tracePath.names.getLast? := by
  rw [Path.getLast?_extend, getLast?_tracePath]
  intro heq
  obtain ⟨name, -, hname⟩ := Option.map_eq_some_iff.mp heq
  have hend := congrArg (·.toList.getLast?) hname
  simp [storedSuffix] at hend

/-- Opening a trace elsewhere leaves both as they are. -/
theorem HoldsBoth.opened {disk opened : Disk} {path : Path} {source : List Char} {tree : Node}
    (h : HoldsBoth disk path source tree) (hopen : disk.write tracePath "" = .ok opened)
    (hne : disk.resolve path ≠ disk.resolve tracePath) : HoldsBoth opened path source tree := by
  refine ⟨h.parses, ?_, ?_⟩
  · rw [readText_congr (Disk.read_write_other hopen hne), h.source_text]
  · rw [readText_congr (Disk.read_write_other hopen (Disk.resolve_ne_of_getLast?_ne hopen
      (getLast?_extend_ne_tracePath path))), h.stored_text]

/-! ## The command -/

/-- The two results show the same, and leave the same disk unless a trace has parser notes. -/
structure Result.Agrees (verbosity : Nat) (r s : Result) : Prop where
  outcome_eq : r.outcome = s.outcome
  stdout_eq : r.stdout = s.stdout
  stderr_eq : r.stderr = s.stderr
  disk_eq : verbosity ≤ 2 → r.disk = s.disk

/-- Results agree if the runs do, from the disk at hand and from the disk with a trace opened. -/
theorem carryOut_agrees {a b : Arguments} {disk : Disk} {input : Input} {verbosity : Nat}
    (ha : nonempty a.emit = none ∧ a.verbosity = verbosity)
    (hb : nonempty b.emit = none ∧ b.verbosity = verbosity)
    (hrun : (runNamed a disk input).Agrees (runNamed b disk input))
    (hopened : ∀ opened, disk.write tracePath "" = .ok opened →
      (runNamed a opened input).Agrees (runNamed b opened input)) :
    (carryOut a disk input).Agrees verbosity (carryOut b disk input) := by
  simp only [carryOut, ha, hb]
  split
  · exact ⟨hrun.outcome_eq, hrun.output_eq, hrun.stderr_eq, fun _ => rfl⟩
  cases hopen : disk.write tracePath "" with
  | error e => exact ⟨rfl, rfl, rfl, fun _ => rfl⟩
  | ok opened =>
    have hagree := hopened opened hopen
    obtain ⟨closed, hclosed⟩ :=
      Disk.exists_write_again hopen (Event.traceOf verbosity (runNamed a opened input).events)
    obtain ⟨closed', hclosed'⟩ :=
      Disk.exists_write_again hopen (Event.traceOf verbosity (runNamed b opened input).events)
    simp only [hclosed, hclosed']
    refine ⟨hagree.outcome_eq, hagree.output_eq, hagree.stderr_eq, fun hle => ?_⟩
    rw [hagree.trace_eq _ (by omega), hclosed'] at hclosed
    exact (Except.ok.inj hclosed).symm

theorem nonempty_some {s : String} (h : s ≠ "") : nonempty (some s) = some (.ofString s) := by
  simp [nonempty, h]

theorem ofString_append_storedSuffix {file : String} (h : Path.EndsInName file) :
    Path.ofString (file ++ storedSuffix) = (Path.ofString file).extend storedSuffix :=
  Path.ofString_append h (by decide)

/-- One command line stores a program file; the two others run the stored tree, under any name of
    the path where it was put, and the file, with the same switches. -/
structure StoreAndRun (storing runningStored runningFile : List String) (file stored : String)
    (verbosity : Nat) (legacy : Bool) : Prop where
  file_ne : file ≠ ""
  stored_eq : Path.ofString stored = (Path.ofString file).extend storedSuffix
  storing_eq : Usage.of storing = .proceed { Arguments.none with emit := some file }
  runningStored_eq : Usage.of runningStored =
    .proceed { Arguments.none with verbosity, legacy, stored := some stored }
  runningFile_eq : Usage.of runningFile =
    .proceed { Arguments.none with verbosity, legacy, program := some file }

/-- A program is read back from its stored text. The stored tree of a file is named by the suffix
    behind the name of the file. And once a program file other than the trace has been stored, a run
    of the stored tree and a run of the file end in the same way, with the same output and the same
    reports, at every verbosity and in either dialect; up to verbosity two they also leave the same
    disk, and so the same trace. -/
theorem stored_runs_as_source :
    (∀ source tree, Program.ofSource source = .ok tree →
      Node.ofStoredText tree.storedText.toList = .ok tree) ∧
    (∀ file, Path.EndsInName file →
      Path.ofString (file ++ ".ast.json") = (Path.ofString file).extend storedSuffix) ∧
    ∀ storing runningStored runningFile file stored verbosity legacy,
      StoreAndRun storing runningStored runningFile file stored verbosity legacy →
      ∀ disk input, (run storing disk input).outcome = .ok 0 →
        disk.resolve (.ofString file) ≠ disk.resolve tracePath →
        (run runningStored (run storing disk input).disk input).Agrees verbosity
          (run runningFile (run storing disk input).disk input) := by
  refine ⟨fun source tree h => Node.ofStoredText_storedText (Program.legible_toJson_of_ofSource h),
    fun file => ofString_append_storedSuffix, ?_⟩
  intro storing runningStored runningFile file stored verbosity legacy hlines disk input hok htrace
  have hemit : run storing disk input = emit disk (.ofString file) := by
    simp only [run, hlines.storing_eq, carryOut, nonempty_some hlines.file_ne]
  rw [hemit] at hok ⊢
  obtain ⟨source, tree, hsource, htree, hwrite⟩ := emit_eq_ok hok
  have hboth := HoldsBoth.of_write hsource htree hwrite
  have hstored : stored ≠ "" := by
    rintro rfl
    obtain ⟨name, hname⟩ := Disk.exists_getLast?_of_write hwrite
    rw [← hlines.stored_eq] at hname
    cases hname
  simp only [run, hlines.runningStored_eq, hlines.runningFile_eq]
  refine carryOut_agrees ⟨rfl, rfl⟩ ⟨rfl, rfl⟩ ?_ fun opened hopen => ?_
  · simp only [runNamed, nonempty_some hlines.file_ne, nonempty_some hstored, hlines.stored_eq]
    exact hboth.agrees _ _
  · simp only [runNamed, nonempty_some hlines.file_ne, nonempty_some hstored, hlines.stored_eq]
    rw [← Disk.resolve_write hwrite, ← Disk.resolve_write hwrite] at htrace
    exact (hboth.opened hopen htrace).agrees _ _

/-- A directory with one program in it, which fails after some output. -/
def oneProgram : Disk where
  files := [(⟨.above 0, ["lib", "p.plinth"]⟩, "x = 1 <= 2\r\nprint x, x / 0\n".toUTF8)]
  directories := []

/-- The program is stored, and then run from both files with a trace, in the old dialect. -/
theorem stored_runs_as_source_failing_print :
    (run ["--emit-ast", "lib/p.plinth"] oneProgram .none).outcome = .ok 0 ∧
    (run ["-vv", "--legacy-operators", "--ast", "lib/p.plinth.ast.json"]
        (run ["--emit-ast", "lib/p.plinth"] oneProgram .none).disk .none).Agrees 2
      (run ["-vv", "--legacy-operators", "lib/p.plinth"]
        (run ["--emit-ast", "lib/p.plinth"] oneProgram .none).disk .none) := by
  have hok : (run ["--emit-ast", "lib/p.plinth"] oneProgram .none).outcome = .ok 0 := by
    decide +kernel
  refine ⟨hok, stored_runs_as_source.2.2 _ _ _ "lib/p.plinth" "lib/p.plinth.ast.json" 2 true ?_
    oneProgram .none hok (by decide +kernel)⟩
  exact ⟨by decide, by decide +kernel, by decide +kernel, by decide +kernel, by decide +kernel⟩

end Cli

end LineScript
