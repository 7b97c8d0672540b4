-- SUMMARY: Evaluating expressions.
import LineScript.Run.Event
import LineScript.Run.Operation

/-!
# Evaluation

An expression is evaluated from left to right, and both operands of an operator are evaluated
whatever the first one gives. Evaluation changes nothing; its events are the look-ups of names.
-/

namespace LineScript

/-- A result together with the events on the way to it. -/
structure Outcome (α : Type) where
  events : List Event
  result : Except RunError α

namespace Outcome

/-- A result without events. -/
def of {α : Type} (result : Except RunError α) : Outcome α := ⟨[], result⟩

/-- Go on with a result, if there is one. -/
def andThen {α β : Type} (o : Outcome α) (f : α → Outcome β) : Outcome β :=
  match o.result with
  | .error e => ⟨o.events, .error e⟩
  | .ok a => ⟨o.events ++ (f a).events, (f a).result⟩

end Outcome

/-- Read a name. -/
def Env.look (env : Env) (name : Json) : Outcome Value :=
  match name.name? with
  | none => .of (.error .unusableName)
  | some s => ⟨[.looked s (env.read? s)], .ok ((env.read? s).getD .undefined)⟩

/-- The value of a literal. -/
def Literal.toValue : Literal → Value
  | .int n => .int n
  | .bool b => .bool b

namespace Node

/-- Evaluate an expression. -/
def eval (dialect : Dialect) (env : Env) : Node → Outcome Value
  | .literal v => .of (.ok v.toValue)
  | .ident name => env.look name
  | .unary op operand =>
    (eval dialect env operand).andThen fun v => .of (applyUnary op v)
  | .binary op left right =>
    (eval dialect env left).andThen fun a =>
      (eval dialect env right).andThen fun b => .of (applyBinary dialect op a b)
  | .program body => .of (.error (.notAnExpression (.program body)))
  | .binding name expr => .of (.error (.notAnExpression (.binding name expr)))
  | .call name args => .of (.error (.notAnExpression (.call name args)))
  | .blank => .of (.error (.notAnExpression .blank))
  | .atom a => .of (.error (.notAnExpression (.atom a)))
termination_by structural n => n

end Node

end LineScript
