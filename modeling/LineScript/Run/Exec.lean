-- SUMMARY: Executing statements and running programs.
import LineScript.Run.Builtin
import LineScript.Run.Eval

/-!
# Execution

Statements are executed in order, and the first one that fails ends the run. A statement that fails
binds nothing; a print that fails has written a line for each argument before the failing one. This
is how programs run without a trace.
-/

namespace LineScript

/-! ## Settings -/

/-- What a run depends on besides the program and the bindings. -/
structure Settings where
  dialect : Dialect
  builtins : Builtins
  deriving DecidableEq, Repr

/-- The settings of a new interpreter. -/
def Settings.new (dialect : Dialect) : Settings := ⟨dialect, .standard⟩

/-- The builtin that a call names. -/
def Settings.builtin (settings : Settings) (name : Json) : Except RunError Builtin :=
  match name.name? with
  | none => .error .unusableName
  | some s =>
    match settings.builtins.get? s with
    | some b => .ok b
    | none => .error (.fault (.unknownMethod name))

/-! ## Statements -/

/-- What a run leaves behind: events, bindings, and a result. -/
structure Effect where
  events : List Event
  env : Env
  result : Except RunError Value

/-- Print a value on a line. -/
def Value.print (v : Value) : Outcome Value :=
  match v.render? with
  | some written => ⟨[.printed (written ++ "\n")], .ok v⟩
  | none => .of (.error .overlong)

namespace Node

/-- Evaluate expressions one by one, printing each value on a line before the next is evaluated. -/
def printAll (dialect : Dialect) (env : Env) : List Node → Outcome Value
  | [] => .of (.ok .undefined)
  | arg :: args =>
    (arg.eval dialect env).andThen fun v =>
      v.print.andThen fun _ => printAll dialect env args

/-- Execute a statement. -/
def exec (settings : Settings) (env : Env) : Node → Effect
  | .binding name expr =>
    let value := expr.eval settings.dialect env
    match value.result, name.name? with
    | .error e, _ => ⟨value.events, env, .error e⟩
    | .ok _, none => ⟨value.events, env, .error .unusableName⟩
    | .ok v, some s => ⟨value.events ++ [.bound s v], env.put s v, .ok v⟩
  | .call name args =>
    match settings.builtin name with
    | .error e => ⟨[], env, .error e⟩
    | .ok .print =>
      let printed := printAll settings.dialect env args
      ⟨printed.events, env, printed.result⟩
  | .blank => ⟨[], env, .ok .undefined⟩
  | n => ⟨[], env, .error (.notAStatement n)⟩

/-- Execute statements in order; `last` is the value of the statement before. -/
def execAll (settings : Settings) (env : Env) (last : Value) : List Node → Effect
  | [] => ⟨[], env, .ok last⟩
  | s :: ss =>
    let first := s.exec settings env
    match first.result with
    | .error _ => first
    | .ok v =>
      let rest := execAll settings first.env v ss
      ⟨first.events ++ .finished s.typeName v :: rest.events, rest.env, rest.result⟩

/-- Run a program: the result is the value of its last statement. -/
def run (settings : Settings) (env : Env) : Node → Effect
  | .program body => execAll settings env .undefined body
  | _ => ⟨[], env, .error .notAProgram⟩

end Node

/-- Parse and run source text in a new environment. -/
def runSource (dialect : Dialect) (source : List Char) : Except ParseError Effect :=
  (Program.ofSource source).map fun program => program.run (.new dialect) .empty

end LineScript
