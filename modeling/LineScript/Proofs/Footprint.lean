-- SUMMARY: The command writes its trace and the stored tree it was asked for, and nothing else.
import LineScript.Proofs.Storage

/-!
# Footprint

Whatever the arguments are, and however the command ends, it leaves every place on the disk as it
was except two: that of the trace, which it touches only if it was asked for a trace and not for a
stored tree, and that of the stored tree, which it touches only to put the whole tree there.
-/

namespace LineScript.Cli

/-! ## Places -/

/-- Where the trace is kept. -/
def tracePlace : Place := ⟨.above 0, ["debug.txt"]⟩

theorem resolve_tracePath (disk : Disk) : disk.resolve tracePath = .ok tracePlace := by
  have hpath : tracePath = ⟨"", ["debug.txt"]⟩ := by decide
  have hrender : tracePath.render = "debug.txt" := by decide
  have hstart : disk.isDirectory ⟨.above 0, []⟩ = true := Disk.isDirectory_iff.mpr (.inl rfl)
  rw [Disk.resolve, hrender, if_neg (by decide), if_neg (by decide), hpath, if_pos rfl, Disk.walk,
    hstart, if_neg (by decide), if_neg (by decide)]
  rfl

/-- The program file whose tree the command line asks to store. -/
def emitPath? (args : List String) : Option Path :=
  match Usage.of args with
  | .proceed a => nonempty a.emit
  | .help | .version | .misuse => none

/-- How often the command line asks for more of a trace. -/
def verbosityOf (args : List String) : Nat :=
  match Usage.of args with
  | .proceed a => a.verbosity
  | .help | .version | .misuse => 0

/-! ## Runs -/

/-- A run touches nothing but the trace, and not even that unless it is asked for one. -/
theorem carryOut_sameBut {a : Arguments} (hemit : nonempty a.emit = none) (disk : Disk)
    (input : Input) :
    Disk.SameBut tracePlace disk (carryOut a disk input).disk ∧
      (a.verbosity = 0 → (carryOut a disk input).disk = disk) := by
  simp only [carryOut, hemit]
  split
  · exact ⟨.refl _ _, fun _ => rfl⟩
  · next hverbose =>
    refine ⟨?_, fun hzero => absurd hzero hverbose⟩
    split
    · exact .refl _ _
    · next opened hopen =>
      have hopened := Disk.sameBut_write hopen (resolve_tracePath disk)
      split
      · exact hopened
      · next closed hclose =>
        exact hopened.trans (Disk.sameBut_write hclose (resolve_tracePath opened))

/-! ## Storing -/

/-- The tree is stored beside its program file, and nothing is told but where. -/
structure Result.Stores (disk : Disk) (path : Path) (tree : Node) (r : Result) : Prop where
  outcome_eq : r.outcome = .ok 0
  stdout_eq : r.stdout = (path.extend storedSuffix).render ++ "\n"
  stderr_eq : r.stderr = ""
  entry_eq : ∃ p, disk.resolve (path.extend storedSuffix) = .ok p ∧
    r.disk.entry p = .file tree.storedText.toUTF8

/-- Nothing is stored, since the file is no program that can be read, or since there is no writing
    where its tree belongs. -/
structure Result.StoresNothing (disk : Disk) (path : Path) (r : Result) : Prop where
  outcome_ne : r.outcome ≠ .ok 0
  stdout_eq : r.stdout = ""
  disk_eq : r.disk = disk
  unwritable : ∀ source tree, readText disk path = .ok source →
    Program.ofSource source = .ok tree →
    ∃ e, disk.write (path.extend storedSuffix) tree.storedText = .error e ∧
      r.outcome = .error (.disk e)

theorem emit_stores (disk : Disk) (path : Path) :
    (∃ source tree, readText disk path = .ok source ∧ Program.ofSource source = .ok tree ∧
      (emit disk path).Stores disk path tree) ∨ (emit disk path).StoresNothing disk path := by
  rcases emit_cases disk path with ⟨source, tree, after, hsource, htree, hwrite, hemit⟩ |
    ⟨outcome, stderr, hemit, houtcome, hwhy⟩
  · rw [hemit]
    exact .inl ⟨source, tree, hsource, htree, rfl, rfl, rfl, Disk.entry_write_self hwrite⟩
  · rw [hemit]
    exact .inr ⟨houtcome, rfl, rfl, hwhy⟩

/-- Storing touches nothing but the place of the stored tree. -/
theorem entry_emit {disk : Disk} {path : Path} {q : Place}
    (hq : disk.resolve (path.extend storedSuffix) ≠ .ok q) :
    (emit disk path).disk.entry q = disk.entry q := by
  rcases emit_cases disk path with ⟨source, tree, after, -, -, hwrite, hemit⟩ |
    ⟨outcome, stderr, hemit, -⟩
  · rw [hemit]
    obtain ⟨p, hp, -⟩ := Disk.write_eq_ok_iff.mp hwrite
    have hne : q ≠ p := fun heq => hq (heq ▸ hp)
    exact (Disk.sameBut_write hwrite hp q hne).symm
  · rw [hemit]

theorem emit_keeps_trace (disk : Disk) (path : Path) :
    (emit disk path).disk.entry tracePlace = disk.entry tracePlace := by
  rcases emit_cases disk path with ⟨source, tree, after, -, -, hwrite, -⟩ |
    ⟨outcome, stderr, hemit, -⟩
  · have hne := Disk.resolve_ne_of_getLast?_ne hwrite (getLast?_extend_ne_tracePath path).symm
    rw [resolve_tracePath] at hne
    exact entry_emit hne.symm
  · rw [hemit]

/-! ## The command -/

/-- At every place but two the command leaves what was there, whatever it is asked for and however
    it ends. It touches the trace only if a trace is asked for and no tree is to be stored. If one
    is, then the tree of a program file stands beside it in the end and nothing was said but where,
    or nothing was said and the whole disk is as it was. -/
theorem run_touches_only_its_files (args : List String) (disk : Disk) (input : Input) :
    (∀ q, q ≠ tracePlace →
      (∀ path, emitPath? args = some path → disk.resolve (path.extend storedSuffix) ≠ .ok q) →
      (run args disk input).disk.entry q = disk.entry q) ∧
    ((run args disk input).disk.entry tracePlace ≠ disk.entry tracePlace →
      0 < verbosityOf args ∧ emitPath? args = none) ∧
    ∀ path, emitPath? args = some path →
      (∃ source tree, readText disk path = .ok source ∧ Program.ofSource source = .ok tree ∧
        (run args disk input).Stores disk path tree) ∨
      (run args disk input).StoresNothing disk path := by
  simp only [run, emitPath?, verbosityOf]
  cases hargs : Usage.of args with
  | help => simp
  | version => simp
  | misuse => simp
  | proceed a =>
    simp only
    cases hemit : nonempty a.emit with
    | none =>
      obtain ⟨hsame, hquiet⟩ := carryOut_sameBut hemit disk input
      refine ⟨fun q hq _ => (hsame q hq).symm, fun hchanged => ⟨?_, rfl⟩, by simp⟩
      refine Nat.pos_of_ne_zero fun hzero => hchanged ?_
      rw [hquiet hzero]
    | some path =>
      have hcarry : carryOut a disk input = emit disk path := by simp only [carryOut, hemit]
      rw [hcarry]
      refine ⟨fun q _ hq => entry_emit (hq path rfl),
        fun hchanged => absurd (emit_keeps_trace disk path) hchanged, ?_⟩
      rintro _ ⟨⟩
      exact emit_stores disk path

/-- With a trace asked for as well, the tree is stored all the same and there is no trace. -/
theorem run_touches_only_its_files_storing :
    (run ["-v", "--emit-ast", "lib/p.plinth"] oneProgram .none).disk.entry tracePlace =
      oneProgram.entry tracePlace ∧
    ∃ source tree, readText oneProgram (.ofString "lib/p.plinth") = .ok source ∧
      Program.ofSource source = .ok tree ∧
      (run ["-v", "--emit-ast", "lib/p.plinth"] oneProgram .none).Stores oneProgram
        (.ofString "lib/p.plinth") tree := by
  have hok : (run ["-v", "--emit-ast", "lib/p.plinth"] oneProgram .none).outcome = .ok 0 := by
    decide +kernel
  have hpath : emitPath? ["-v", "--emit-ast", "lib/p.plinth"] =
      some (.ofString "lib/p.plinth") := by
    decide +kernel
  obtain ⟨-, htrace, hstores⟩ :=
    run_touches_only_its_files ["-v", "--emit-ast", "lib/p.plinth"] oneProgram .none
  constructor
  · by_contra hchanged
    rw [hpath] at htrace
    cases (htrace hchanged).2
  · exact (hstores _ hpath).resolve_right fun hnothing => hnothing.outcome_ne hok

end LineScript.Cli
