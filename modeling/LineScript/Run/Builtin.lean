-- SUMMARY: Builtins and the names they are called by.
import LineScript.Table

/-!
# Builtins

There is one builtin, `print`, and it may be called by any number of names.
-/

namespace LineScript

/-- What a call can do. -/
inductive Builtin where
  | print
  deriving DecidableEq, Repr

/-- The builtin's own name, whatever name it is called by. -/
def Builtin.name : Builtin → String
  | print => "print"

/-- How answers show a builtin. -/
def Builtin.render (b : Builtin) : String := "<builtin " ++ b.name ++ ">"

/-- The builtins by the names they are called by. -/
abbrev Builtins := Table Builtin

/-- The builtins that are there from the start. -/
def Builtins.standard : Builtins := Table.empty.put (.text Builtin.print.name) .print

end LineScript
