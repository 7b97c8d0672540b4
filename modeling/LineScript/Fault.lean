-- SUMMARY: What can go wrong when a program runs.
import LineScript.Node
import LineScript.Value

/-!
# Faults

A fault is an error that a program can commit: an operator on operands of the wrong types, a call of
a builtin that does not exist, a division by zero. Trees that no source text gives can fail in
further ways.
-/

namespace LineScript

/-- An error that a program commits. -/
inductive Fault where
  | typeMismatch (expected actual : ValueType)
  | unknownMethod (name : Json)
  | divisionByZero (op : BinaryOp)
  deriving DecidableEq, Repr

namespace Fault

/-- The name of the kind of a fault. -/
def kind : Fault → String
  | .typeMismatch .. => "TypeMismatch"
  | .unknownMethod _ => "UnknownMethod"
  | .divisionByZero _ => "DivisionByZero"

/-- The text of a fault. -/
def text (f : Fault) : String :=
  match f with
  | .typeMismatch expected actual =>
    f.kind ++ ": expected " ++ expected.name ++ ", got " ++ actual.name
  | .unknownMethod name => f.kind ++ ": " ++ name.display
  | .divisionByZero op =>
    f.kind ++ ": integer " ++ (if op = .div then "division" else "modulo") ++ " by zero"

end Fault

/-- Why a tree does not run to its end. -/
inductive RunError where
  | fault (fault : Fault)
  | unknownUnary (op : Json)
  | unknownBinary (op : Json)
  /-- The node is no statement. -/
  | notAStatement (node : Node)
  /-- The node is no expression. -/
  | notAnExpression (node : Node)
  /-- An integer in the place of text that is too long to be written. -/
  | overlong
  /-- A list or an object in the place of a name. -/
  | unusableName
  /-- The tree is no program. -/
  | notAProgram
  deriving DecidableEq, Repr

namespace RunError

/-- The text of an error; some have none. -/
def message? : RunError → Option String
  | .fault f => some f.text
  | .unknownUnary op => some ("unknown unary operator " ++ op.display)
  | .unknownBinary op => some ("unknown binary operator " ++ op.display)
  | .notAStatement n => some ("execute: unexpected node type " ++ n.classText)
  | .notAnExpression n => some ("evaluate: unexpected node type " ++ n.classText)
  | .overlong | .unusableName | .notAProgram => none

/-- The line that tells a user of an error; only a fault is something to tell. -/
def report? : RunError → Option String
  | .fault f => some ("Runtime error: " ++ f.text ++ "\n")
  | _ => none

end RunError

end LineScript
