-- SUMMARY: Program trees as text.
import LineScript.Failure
import LineScript.Json.Printer

/-!
# Stored program text

The text of a stored tree is the JSON text of its stored form, over several lines.
-/

namespace LineScript.Node

/-- The text that a tree is stored as. -/
def storedText (n : Node) : String := n.toJson.pretty

/-- The tree that a text stores. -/
def ofStoredText (text : List Char) : Except Failure Node :=
  match Json.read text with
  | .error e => .error (.json e)
  | .ok tree => (ofJson tree).mapError .stored

end LineScript.Node
