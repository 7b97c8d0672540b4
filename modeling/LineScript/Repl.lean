-- SUMMARY: The read-eval-print loop, as a function of its input.
import LineScript.Failure
import LineScript.Run.Watch
import LineScript.Text.Blank
import LineScript.Text.Newline

/-!
# The read-eval-print loop

Every line of the input is a program of its own, run under the trace in the environment that the
lines before have left. Blank lines are skipped, and a line that says `exit` ends the loop. Errors
of a line are reported and the loop goes on; only a line with an overlong run of digits ends it with
a failure. Towards a terminal the loop greets, prompts before each line, and ends the last prompt's
line.
-/

namespace LineScript

/-- The version of the language. -/
def version : String := "0.1.0"

namespace Repl

/-- What the loop says first to a terminal. -/
def greeting : String := "Plinth " ++ version ++ " - Type 'exit' or Ctrl+D to quit\n"

/-- What the loop says to a terminal before it reads. -/
def prompt : String := ">>> "

/-- What becomes of one line: events, bindings, and a failure that the loop does not handle. -/
structure Reply where
  events : List Event
  env : Env
  failure : Option Failure

/-- Say the result of a line; no value is not worth a word. -/
def echo : Value → Outcome Value
  | .undefined => .of (.ok .undefined)
  | v => v.print

/-- The failure that an error is to the loop. -/
def failure? : Except RunError Value → Option Failure
  | .ok _ => none
  | .error e => some (.run e)

/-- Run one line that is neither blank nor the end, under a trace of the given level. -/
def answer (level : Int) (settings : Settings) (env : Env) (line : List Char) : Reply :=
  let notes := (Program.sourceNotes line).map Event.parsed
  match Program.ofSource line with
  | .error e =>
    match e.report? with
    | some text => ⟨notes ++ [.printed text], env, none⟩
    | none => ⟨notes, env, some (.parse e)⟩
  | .ok program =>
    let effect := (program.run settings env).watched level env
    match effect.result with
    | .ok v => ⟨notes ++ effect.events ++ (echo v).events, effect.env, failure? (echo v).result⟩
    | .error e =>
      match e.report? with
      | some text => ⟨notes ++ effect.events ++ [.printed text], effect.env, none⟩
      | none => ⟨notes ++ effect.events, effect.env, some (.run e)⟩

/-- What a line asks for. -/
inductive Request where
  | exit
  | nothing
  | program
  deriving DecidableEq, Repr

/-- What a line asks for. -/
def Request.of (line : List Char) : Request :=
  if Text.trim line = "exit".toList then .exit
  else if Text.trim line = [] then .nothing
  else .program

/-- What becomes of a line; nothing does behind one that ends the loop. -/
def turn (level : Int) (settings : Settings) (env : Env) (line : List Char) : Option Reply :=
  match Request.of line with
  | .exit => none
  | .nothing => some ⟨[], env, none⟩
  | .program => some (answer level settings env line)

/-- What is said to a terminal before each line. -/
def prompted (interactive : Bool) : List Event :=
  if interactive then [.printed prompt] else []

/-- What is said to a terminal first. -/
def opening (interactive : Bool) : List Event :=
  if interactive then [.printed greeting] else []

/-- What is said to a terminal when the input is over. -/
def farewell (interactive : Bool) : List Event :=
  if interactive then [.printed "\n"] else []

/-- What the loop leaves behind: events, bindings, the input not read, and a failure. -/
structure Result where
  events : List Event
  env : Env
  rest : List (List Char)
  failure : Option Failure

/-- The same result after more events. -/
def Result.after (events : List Event) (r : Result) : Result :=
  { r with events := events ++ r.events }

/-- Run the loop over the lines of the input. -/
def loop (level : Int) (settings : Settings) (interactive : Bool) (env : Env) :
    List (List Char) → Result
  | [] => ⟨prompted interactive ++ farewell interactive, env, [], none⟩
  | line :: lines =>
    match turn level settings env line with
    | none => ⟨prompted interactive, env, lines, none⟩
    | some reply =>
      match reply.failure with
      | some f => ⟨prompted interactive ++ reply.events, reply.env, lines, some f⟩
      | none =>
        (loop level settings interactive reply.env lines).after
          (prompted interactive ++ reply.events)

/-- Run the loop over an input. -/
def run (level : Int) (settings : Settings) (interactive : Bool) (input : List Char) : Result :=
  (loop level settings interactive .empty (Text.splitLines input)).after (opening interactive)

end Repl

end LineScript
