-- SUMMARY: The flat table of bindings.
import LineScript.Table
import LineScript.Value

/-!
# Environments

One flat table of names and values. A name bound to null counts as bound, but reads as if it were
not.
-/

namespace LineScript

/-- A table of bindings. -/
abbrev Env := Table Value

/-- The value that a name reads as; null reads as no value. -/
def Env.read? (env : Env) (name : Scalar) : Option Value :=
  match env.get? name with
  | some .null => none
  | v => v

end LineScript
