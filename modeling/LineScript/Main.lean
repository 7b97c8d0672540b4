-- SUMMARY: The command line program: the only part that touches the outside world.
import LineScript.Cli.Command

/-!
# The program

Gathers what the command needs from the outside, lets it run, and puts what it leaves behind to the
outside. Only the loop at a terminal goes line by line, because each answer has to be seen before
the next line is typed; each of its turns is a turn of the loop over a whole input.
-/

namespace LineScript.Cli

/-- What stands at a path. -/
def entryAt (path : String) : IO Entry := do
  try
    return .file (← IO.FS.readBinFile path)
  catch e =>
    match e with
    | .noFileOrDirectory .. => return .absent
    | .inappropriateType .. => return .directory
    | _ => return .absent

/-- Enter what stands at a place into a disk. -/
def enter (disk : Disk) (place : Place) (path : String) : IO Disk := do
  match ← entryAt path with
  | .file content => return { disk with files := Disk.putFile place content disk.files }
  | .directory => return { disk with directories := place :: disk.directories }
  | .absent => return disk

/-- The path of a place. -/
def pathOf (place : Place) : String :=
  match place.base with
  | .root => "/" ++ Path.joinNames place.names
  | .above n => Path.joinNames (List.replicate n ".." ++ place.names)

/-- Enter what stands along a path into a disk. -/
def enterAlong (disk : Disk) (path : Path) : IO Disk := do
  let mut disk := disk
  for length in List.range (path.names.length + 1) do
    if let .ok place := disk.resolve { path with names := path.names.take length } then
      unless place.names.isEmpty do
        disk ← enter disk place (pathOf place)
  return disk

/-- The part of the outside that the arguments are about. -/
def gather (a : Arguments) : IO Disk := do
  let mut disk ← enterAlong ⟨[], []⟩ tracePath
  for path in [nonempty a.emit, nonempty a.stored, nonempty a.program].filterMap id do
    disk ← enterAlong disk path
    disk ← enterAlong disk (path.extend storedSuffix)
  return disk

/-- Put the files that changed to the outside. -/
def release (before after : Disk) : IO Unit :=
  for (place, content) in after.files do
    unless ((before.files.lookup place).map ByteArray.toList) == some content.toList do
      IO.FS.writeBinFile (pathOf place) content

/-- Everything that can be read from the input. -/
partial def readAll (input : IO.FS.Stream) (seen : String) : IO String := do
  let line ← input.getLine
  if line.isEmpty then return seen else readAll input (seen ++ line)

/-- Say that something failed that the command does not handle. -/
def reportFailure (f : Failure) : IO Unit :=
  IO.eprintln ("failed: " ++ f.message?.getD "the request cannot be answered")

/-- Put out what events put out, at once. -/
def say (events : List Event) : IO Unit := do
  let output ← IO.getStdout
  output.putStr (Event.outputOf events)
  output.flush

/-- The loop at a terminal, from one prompt to the next; gives the events of the whole loop. -/
partial def converse (level : Int) (settings : Settings) (env : Env) (seen : List Event) :
    IO (Option Failure × List Event) := do
  say (Repl.prompted true)
  let line := (← (← IO.getStdin).getLine).toList
  if line.isEmpty then
    say (Repl.farewell true)
    return (none, seen)
  match Repl.turn level settings env line with
  | none => return (none, seen)
  | some reply =>
    say reply.events
    match reply.failure with
    | some f => return (some f, seen ++ reply.events)
    | none => converse level settings reply.env (seen ++ reply.events)

/-- Carry out arguments that ask for the loop at a terminal. -/
def atTerminal (a : Arguments) : IO UInt32 := do
  say (Repl.opening true)
  let (failure, events) ← converse a.verbosity a.settings .empty []
  if 0 < a.verbosity then
    IO.FS.writeFile tracePath.render (Event.traceOf a.verbosity events)
  match failure with
  | none => return 0
  | some f =>
    reportFailure f
    return 1

/-- Carry out arguments that do not need a terminal. -/
def inBatch (args : List String) (disk : Disk) (text : String) : IO UInt32 := do
  let r := run args disk ⟨text.toList, false⟩
  release disk r.disk
  IO.print r.stdout
  IO.eprint r.stderr
  match r.outcome with
  | .ok status => return status.toUInt32
  | .error f =>
    reportFailure f
    return 1

/-- The arguments ask for the loop. -/
def asksForLoop (a : Arguments) : Bool :=
  (nonempty a.emit).isNone && (nonempty a.stored).isNone && (nonempty a.program).isNone

end LineScript.Cli

open LineScript.Cli in
def main (args : List String) : IO UInt32 := do
  match Usage.of args with
  | .proceed a =>
    let disk ← gather a
    if asksForLoop a then
      let input ← IO.getStdin
      if ← input.isTty then atTerminal a else inBatch args disk (← readAll input "")
    else
      inBatch args disk ""
  | _ => inBatch args ⟨[], []⟩ ""
