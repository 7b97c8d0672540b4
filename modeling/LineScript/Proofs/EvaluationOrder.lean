-- SUMMARY: Evaluation goes through the nodes in postorder, and the trace shows how far it came.
import LineScript.Proofs.Dependence
import LineScript.Proofs.JsonText

/-!
# The order of evaluation

The nodes of an expression in postorder are the order in which it is evaluated: an identifier is
looked up when its turn comes, and the first node that fails is the failure of the whole. An
operator fails on the values of its operands. An identifier fails if its name is a list or an
object, or if the trace cannot write its look-up. No operand is left out, whatever the operand in
front of it gives, so the look-ups that a trace shows are those of all nodes, or of the nodes in
front of the one that fails.
-/

namespace LineScript

/-! ## Look-ups -/

namespace Env

/-- The line of a trace that shows the look-up of a name. -/
def lookupLine (env : Env) (name : Scalar) : String :=
  "lookup " ++ (Json.scalar name).display ++ ": " ++
    (match env.read? name with
      | none => "unbound"
      | some v => v.render) ++ "\n"

/-- The event of a name that is looked up. -/
def lookup (env : Env) (name : Scalar) : Event := .looked name (env.read? name)

/-- A trace of the given level shows the look-ups of the names one after the other, and no other of
    the events. -/
def ShowsLookups (env : Env) (level : Int) (names : List Scalar) (events : List Event) : Prop :=
  events.filter (Event.writtenAt level) = names.map env.lookup

theorem ShowsLookups.append {env : Env} {level : Int} {names more : List Scalar}
    {events rest : List Event} (h : env.ShowsLookups level names events)
    (hrest : env.ShowsLookups level more rest) :
    env.ShowsLookups level (names ++ more) (events ++ rest) := by
  rw [ShowsLookups, List.filter_append, h, hrest, List.map_append]

theorem ShowsLookups.trace {env : Env} {level : Int} {names : List Scalar} {events : List Event}
    (h : env.ShowsLookups level names events) :
    Event.traceOf level events = String.join (names.map env.lookupLine) := by
  have hline : ∀ name, (env.lookup name).text ++ "\n" = env.lookupLine name := by
    intro name
    rw [lookup, lookupLine, Event.text]
    cases env.read? name <;> rfl
  rw [Event.traceOf, h, List.map_map]
  exact congrArg String.join (List.map_congr_left fun name _ => hline name)

end Env

namespace Node

/-! ## Evaluation under a trace -/

/-- Evaluate an expression under a trace of the given level. -/
def evalUnder (level : Int) (dialect : Dialect) (env : Env) (n : Node) : Outcome Value :=
  (n.eval dialect env).watched level

section

variable {level : Int} {dialect : Dialect} {env : Env}

end

/-! ## Nodes in postorder -/

/-- The name that a node reads itself, without its operands. -/
def ownReads : Node → List Scalar
  | .ident name => name.name?.toList
  | _ => []

/-- The node fails when its turn comes: an operator on the values of its operands, an identifier by
    a name that is none or by a look-up that cannot be written. -/
inductive FailsWith (level : Int) (dialect : Dialect) (env : Env) : Node → RunError → Prop where
  | unary {op : Json} {operand : Node} {v : Value} {e : RunError}
      (hv : (operand.evalUnder level dialect env).result = .ok v)
      (he : applyUnary op v = .error e) :
      FailsWith level dialect env (.unary op operand) e
  | binary {op : Json} {left right : Node} {a b : Value} {e : RunError}
      (ha : (left.evalUnder level dialect env).result = .ok a)
      (hb : (right.evalUnder level dialect env).result = .ok b)
      (he : applyBinary dialect op a b = .error e) :
      FailsWith level dialect env (.binary op left right) e
  | unusableName {name : Json} (hname : name.name? = none) :
      FailsWith level dialect env (.ident name) .unusableName
  | overlong {name : Json} {s : Scalar} (hname : name.name? = some s)
      (hlong : ¬ (env.lookup s).Legible) : FailsWith level dialect env (.ident name) .overlong

/-- None of the nodes fails. -/
def NoneFails (level : Int) (dialect : Dialect) (env : Env) (nodes : List Node) : Prop :=
  ∀ m ∈ nodes, ∀ e, ¬ FailsWith level dialect env m e

/-- Behind the front stands the first of the nodes that fails. -/
structure FirstFailure (level : Int) (dialect : Dialect) (env : Env) (nodes front : List Node)
    (m : Node) (e : RunError) : Prop where
  split : ∃ back, nodes = front ++ m :: back
  fails : FailsWith level dialect env m e
  first : NoneFails level dialect env front

section

variable {level : Int} {dialect : Dialect} {env : Env}

theorem FirstFailure.append {nodes front : List Node} {m : Node} {e : RunError}
    (h : FirstFailure level dialect env nodes front m e) (more : List Node) :
    FirstFailure level dialect env (nodes ++ more) front m e := by
  obtain ⟨back, rfl⟩ := h.split
  exact ⟨⟨back ++ more, by simp⟩, h.fails, h.first⟩

theorem FirstFailure.behind {before nodes front : List Node} {m : Node} {e : RunError}
    (hbefore : NoneFails level dialect env before)
    (h : FirstFailure level dialect env nodes front m e) :
    FirstFailure level dialect env (before ++ nodes) (before ++ front) m e := by
  obtain ⟨back, rfl⟩ := h.split
  exact ⟨⟨back, by simp⟩, h.fails, List.forall_mem_append.mpr ⟨hbefore, h.first⟩⟩

/-- Evaluation went through all the nodes and none failed, or it stopped at the first that failed,
    and the look-ups that the trace shows are those of the nodes that it went through. -/
def WentThrough (level : Int) (dialect : Dialect) (env : Env) (nodes : List Node)
    (o : Outcome Value) : Prop :=
  (∃ v, o.result = .ok v ∧ env.ShowsLookups level (nodes.flatMap ownReads) o.events ∧
      NoneFails level dialect env nodes) ∨
    ∃ front m e, o.result = .error e ∧
      env.ShowsLookups level (front.flatMap ownReads) o.events ∧
      FirstFailure level dialect env nodes front m e

/-- The last node has its turn behind the others. -/
theorem WentThrough.last {nodes : List Node} {m : Node} {o : Outcome Value}
    (hnone : NoneFails level dialect env nodes)
    (hm : ∀ e, FailsWith level dialect env m e ↔ o.result = .error e)
    (hown : m.ownReads = [])
    (hshows : env.ShowsLookups level (nodes.flatMap ownReads) o.events) :
    WentThrough level dialect env (nodes ++ [m]) o := by
  cases hresult : o.result with
  | ok v =>
    refine .inl ⟨v, hresult, by simpa [hown] using hshows, List.forall_mem_append.mpr ⟨hnone, ?_⟩⟩
    refine List.forall_mem_singleton.mpr fun e hfails => ?_
    cases hresult.symm.trans ((hm e).mp hfails)
  | error e => exact .inr ⟨nodes, m, e, hresult, hshows, ⟨[], rfl⟩, (hm e).mpr hresult, hnone⟩

end

end Node

end LineScript
