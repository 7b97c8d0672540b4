-- SUMMARY: An interpreter driven step by step.
import LineScript.Failure
import LineScript.Run.Watch

/-!
# Sessions

A session holds one interpreter: its settings, its trace level, its own environment and any number
of further environments that steps name. A step that fails leaves what it did before it failed, and
the session goes on; a trace that cannot be written makes a step fail as well. Closing the trace
sets the level to zero for good. Names come as JSON values, and a list or an object is refused as a
name.
-/

namespace LineScript

/-- The state of an interpreter between steps. -/
structure Session where
  /-- The level of the trace; at zero and below there is none. -/
  level : Int
  settings : Settings
  /-- The environment of steps that name none. -/
  env : Env
  /-- Further environments by name. -/
  scopes : Table Env

namespace Session

/-- A new interpreter. -/
def new (level : Int) (dialect : Dialect) : Session := ⟨level, .new dialect, .empty, .empty⟩

/-- The environment that a step works on; one that was never used is empty. -/
def scope (s : Session) : Option Scalar → Env
  | none => s.env
  | some name => (s.scopes.get? name).getD .empty

/-- The session with another environment in the place that a step works on. -/
def withScope (s : Session) (env : Env) : Option Scalar → Session
  | none => { s with env := env }
  | some name => { s with scopes := s.scopes.put name env }

/-- One request to the interpreter. A scope of null is the interpreter's own environment. -/
inductive Step where
  | run (source : List Char) (scope : Json)
  | runTree (tree scope : Json)
  | execute (tree scope : Json)
  | evaluate (tree scope : Json)
  | unary (op : Json) (operand : Value)
  | binary (op : Json) (left right : Value)
  | get (name scope : Json)
  | set (name : Json) (value : Value) (scope : Json)
  | has (name scope : Json)
  | names (scope : Json)
  | alias (name existing : Json)
  | drop (name : Json)
  | builtins
  | note (text : Json)
  | close

/-- What a step is answered with. -/
inductive Answer where
  | value (value : Value)
  /-- The value of a name, if it has one. -/
  | reading (value : Option Value)
  | size (count : Nat)
  | membership (bound : Bool)
  | names (names : List Scalar)
  | builtins (builtins : List (Scalar × Builtin))
  | level (level : Int)
  | done

/-- The outcome of a step. -/
structure Report where
  answer : Except Failure Answer
  events : List Event
  /-- The level of the trace during the step. -/
  level : Int

/-- What the step printed. -/
def Report.output (r : Report) : String := Event.outputOf r.events

/-- What the step added to the trace. -/
def Report.trace (r : Report) : String := Event.traceOf r.level r.events

/-- The step failed before it did anything. -/
def refuse (s : Session) (failure : Failure) : Session × Report :=
  (s, ⟨.error failure, [], s.level⟩)

/-- The step is answered without events. -/
def reply (s : Session) (answer : Answer) : Session × Report :=
  (s, ⟨.ok answer, [], s.level⟩)

/-- The step has an effect on an environment, after the given events and under the trace. -/
def settle (s : Session) (scope : Option Scalar) (before : List Event) (e : Effect) :
    Session × Report :=
  let e := e.watched s.level (s.scope scope)
  (s.withScope e.env scope,
    ⟨(e.result.map Answer.value).mapError .run, before ++ e.events, s.level⟩)

/-- The step needs a name. -/
def withName (s : Session) (name : Json) (k : Scalar → Session × Report) : Session × Report :=
  match name.name? with
  | some n => k n
  | none => s.refuse (.run .unusableName)

/-- The step works on an environment. -/
def inScope (s : Session) (scope : Json) (k : Option Scalar → Session × Report) :
    Session × Report :=
  if scope = .null then k none else s.withName scope fun name => k (some name)

/-- The step needs a builtin. -/
def withBuiltin (s : Session) (name : Json) (k : Scalar → Builtin → Session × Report) :
    Session × Report :=
  s.withName name fun n =>
    match s.settings.builtins.get? n with
    | some b => k n b
    | none => s.refuse (.missingBuiltin n)

/-- The session with other builtins. -/
def withBuiltins (s : Session) (builtins : Builtins) : Session :=
  { s with settings := { s.settings with builtins := builtins } }

/-- The step needs a tree. -/
def withTree (s : Session) (tree : Json) (k : Node → Session × Report) : Session × Report :=
  match Node.ofJson tree with
  | .ok n => k n
  | .error e => s.refuse (.stored e)

/-- Perform a step. -/
def perform (s : Session) : Step → Session × Report
  | .run source scope =>
    s.inScope scope fun scope =>
      let notes := (Program.sourceNotes source).map Event.parsed
      match Program.ofSource source with
      | .error e => (s, ⟨.error (.parse e), notes, s.level⟩)
      | .ok program => s.settle scope notes (program.run s.settings (s.scope scope))
  | .runTree tree scope =>
    s.inScope scope fun scope =>
      s.withTree tree fun n => s.settle scope [] (n.run s.settings (s.scope scope))
  | .execute tree scope =>
    s.inScope scope fun scope =>
      s.withTree tree fun n => s.settle scope [] (n.exec s.settings (s.scope scope))
  | .evaluate tree scope =>
    s.inScope scope fun scope =>
      s.withTree tree fun n =>
        let o := n.eval s.settings.dialect (s.scope scope)
        s.settle scope [] ⟨o.events, s.scope scope, o.result⟩
  | .unary op v => (s, ⟨((applyUnary op v).map Answer.value).mapError .run, [], s.level⟩)
  | .binary op a b =>
    (s, ⟨((applyBinary s.settings.dialect op a b).map Answer.value).mapError .run, [], s.level⟩)
  | .get name scope =>
    s.inScope scope fun scope =>
      s.withName name fun n => s.reply (.reading ((s.scope scope).read? n))
  | .set name value scope =>
    s.inScope scope fun scope =>
      s.withName name fun n =>
        let env := (s.scope scope).put n value
        (s.withScope env scope).reply (.size env.size)
  | .has name scope =>
    s.inScope scope fun scope =>
      s.withName name fun n => s.reply (.membership ((s.scope scope).contains n))
  | .names scope => s.inScope scope fun scope => s.reply (.names (s.scope scope).names)
  | .alias name existing =>
    s.withBuiltin existing fun _ b =>
      s.withName name fun n => (s.withBuiltins (s.settings.builtins.put n b)).reply .done
  | .drop name =>
    s.withBuiltin name fun n _ => (s.withBuiltins (s.settings.builtins.erase n)).reply .done
  | .builtins =>
    match s.settings.builtins.sorted? with
    | some builtins => s.reply (.builtins builtins)
    | none => s.refuse .unordered
  | .note (.text text) => (s, ⟨.ok .done, [.noted text], s.level⟩)
  | .note _ => if 0 < s.level then s.refuse .notAText else s.reply .done
  | .close => ({ s with level := 0 }, ⟨.ok (.level 0), [], s.level⟩)

/-- Perform steps in order. -/
def performAll (s : Session) : List Step → Session × List Report
  | [] => (s, [])
  | step :: steps =>
    let (s, report) := s.perform step
    let (s, reports) := s.performAll steps
    (s, report :: reports)

end Session

end LineScript
