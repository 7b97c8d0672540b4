-- SUMMARY: The command: running a program file, storing and running trees, and the loop.
import LineScript.Cli.Arguments
import LineScript.Node.StoredText
import LineScript.Repl

/-!
# The command

What the command does, as a function of its arguments, the disk and its input. It stores the tree of
a program file, or runs a stored tree, or runs a program file, or runs the loop over its input. A
trace, if one is asked for, is opened before anything is read and kept in one file. The input is a
text of its own and no file of the disk.
-/

namespace LineScript.Cli

/-- The text about the use of the command. -/
def usageText : String :=
  "usage: plinth [-h] [-v] [--version] [--legacy-operators]\n" ++
  "              [--emit-ast PLINTH_FILE | --ast AST_JSON_FILE]\n" ++
  "              [program]\n"

/-- The answer to a call for help. -/
def helpText : String :=
  usageText ++
  "\nPlinth language interpreter\n" ++
  "\npositional arguments:\n" ++
  "  program               Plinth program file (.plinth) to execute\n" ++
  "\noptions:\n" ++
  "  -h, --help            show this help message and exit\n" ++
  "  -v                    increase debug verbosity (can be repeated)\n" ++
  "  --version             show program's version number and exit\n" ++
  "  --legacy-operators    swap <= and >= and treat xor as or, for legacy results\n" ++
  "  --emit-ast PLINTH_FILE\n" ++
  "                        emit AST JSON for the given .plinth file\n" ++
  "  --ast AST_JSON_FILE   execute AST from a JSON file\n"

/-- The answer to a question for the version. -/
def versionText : String := "plinth " ++ version ++ "\n"

/-- The path of the trace. -/
def tracePath : Path := .ofString "debug.txt"

/-- What is put behind the name of a program file to name the file of its stored tree. -/
def storedSuffix : String := ".ast.json"

/-- The input of the command. -/
structure Input where
  text : List Char
  /-- The input is typed at a terminal. -/
  interactive : Bool

/-- No input. -/
def Input.none : Input := ⟨[], false⟩

/-- What the command leaves behind. -/
structure Result where
  /-- The exit status, unless something failed that the command does not handle. -/
  outcome : Except Failure Nat
  stdout : String
  stderr : String
  disk : Disk

/-- The text of a file, with all line ends unified. -/
def readText (disk : Disk) (path : Path) : Except Failure (List Char) :=
  match disk.read path with
  | .error e => .error (.disk e)
  | .ok content =>
    match String.fromUTF8? content with
    | none => .error .undecodable
    | some text => .ok (Text.unifyNewlines text.toList)

/-- The report of a file that is not there. -/
def missingReport (path : Path) : String := "Error: file " ++ path.render ++ " not found\n"

/-! ## Storing -/

/-- Store the tree of a program file. -/
def emit (disk : Disk) (path : Path) : Result :=
  match readText disk path with
  | .error (.disk .missing) => ⟨.ok 1, "", missingReport path, disk⟩
  | .error f => ⟨.error f, "", "", disk⟩
  | .ok source =>
    match Program.ofSource source with
    | .error e =>
      match e.report? with
      | some text => ⟨.ok 1, "", text, disk⟩
      | none => ⟨.error (.parse e), "", "", disk⟩
    | .ok program =>
      let target := path.extend storedSuffix
      match disk.write target program.storedText with
      | .error e => ⟨.error (.disk e), "", "", disk⟩
      | .ok disk => ⟨.ok 0, target.render ++ "\n", "", disk⟩

/-! ## Running -/

/-- What a run leaves behind before its trace is kept. -/
structure Finish where
  outcome : Except Failure Nat
  events : List Event
  stderr : String

/-- Run a program after the given events, under a trace of the given level. -/
def runProgram (level : Int) (settings : Settings) (before : List Event) (program : Node) :
    Finish :=
  let effect := (program.run settings .empty).watched level .empty
  match effect.result with
  | .ok _ => ⟨.ok 0, before ++ effect.events, ""⟩
  | .error e =>
    match e.report? with
    | some text => ⟨.ok 1, before ++ effect.events, text⟩
    | none => ⟨.error (.run e), before ++ effect.events, ""⟩

/-- Run a stored tree. -/
def runStored (level : Int) (settings : Settings) (disk : Disk) (path : Path) : Finish :=
  match readText disk path with
  | .error (.disk .missing) => ⟨.ok 1, [], missingReport path⟩
  | .error f => ⟨.error f, [], ""⟩
  | .ok text =>
    match Node.ofStoredText text with
    | .error f => ⟨.error f, [], ""⟩
    | .ok program => runProgram level settings [] program

/-- Run a program file. -/
def runFile (level : Int) (settings : Settings) (disk : Disk) (path : Path) : Finish :=
  match readText disk path with
  | .error (.disk .missing) => ⟨.ok 1, [], missingReport path⟩
  | .error f => ⟨.error f, [], ""⟩
  | .ok source =>
    let notes := (Program.sourceNotes source).map Event.parsed
    match Program.ofSource source with
    | .error e =>
      match e.report? with
      | some text => ⟨.ok 1, notes, text⟩
      | none => ⟨.error (.parse e), notes, ""⟩
    | .ok program => runProgram level settings notes program

/-- Run the loop over the input. -/
def runLoop (level : Int) (settings : Settings) (input : Input) : Finish :=
  let r := Repl.run level settings input.interactive (Text.unifyNewlines input.text)
  ⟨r.failure.elim (.ok 0) .error, r.events, ""⟩

/-- A value that was given and is not empty. -/
def nonempty (value : Option String) : Option Path :=
  (value.filter (· ≠ "")).map Path.ofString

/-- The settings that the arguments ask for. -/
def Arguments.settings (a : Arguments) : Settings :=
  .new (if a.legacy then .legacy else .standard)

/-- Run what the arguments name. -/
def runNamed (a : Arguments) (disk : Disk) (input : Input) : Finish :=
  match nonempty a.stored, nonempty a.program with
  | some path, _ => runStored a.verbosity a.settings disk path
  | none, some path => runFile a.verbosity a.settings disk path
  | none, none => runLoop a.verbosity a.settings input

/-- Carry out the arguments. -/
def carryOut (a : Arguments) (disk : Disk) (input : Input) : Result :=
  match nonempty a.emit with
  | some path => emit disk path
  | none =>
    if a.verbosity = 0 then
      let f := runNamed a disk input
      ⟨f.outcome, Event.outputOf f.events, f.stderr, disk⟩
    else
      match disk.write tracePath "" with
      | .error e => ⟨.error (.disk e), "", "", disk⟩
      | .ok opened =>
        let f := runNamed a opened input
        match opened.write tracePath (Event.traceOf a.verbosity f.events) with
        | .error e => ⟨.error (.disk e), Event.outputOf f.events, f.stderr, opened⟩
        | .ok closed => ⟨f.outcome, Event.outputOf f.events, f.stderr, closed⟩

/-- The command. -/
def run (args : List String) (disk : Disk) (input : Input) : Result :=
  match Usage.of args with
  | .help => ⟨.ok 0, helpText, "", disk⟩
  | .version => ⟨.ok 0, versionText, "", disk⟩
  | .misuse => ⟨.ok 2, "", usageText, disk⟩
  | .proceed a => carryOut a disk input

end LineScript.Cli
