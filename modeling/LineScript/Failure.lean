-- SUMMARY: Everything that can keep a request from its answer.
import LineScript.Disk
import LineScript.Fault
import LineScript.Json.Reader
import LineScript.Node.Stored
import LineScript.Parse.Error
import LineScript.Table

/-!
# Failures

The errors of the parts of the library, and those of the surroundings, in one type.
-/

namespace LineScript

/-- Why a request is not answered. -/
inductive Failure where
  | parse (error : ParseError)
  | stored (error : StoredError)
  | run (error : RunError)
  | json (error : Json.ReadError)
  /-- There is no builtin of that name. -/
  | missingBuiltin (name : Scalar)
  /-- Names that should be sorted and have no order. -/
  | unordered
  /-- A JSON value that is no text where a text should be. -/
  | notAText
  /-- Bytes that are no UTF-8 text. -/
  | undecodable
  | disk (error : DiskError)
  deriving DecidableEq, Repr

/-- The text of a failure; some have none. -/
def Failure.message? : Failure → Option String
  | .parse e => e.message?
  | .stored e => e.message?
  | .run e => e.message?
  | .json _ | .missingBuiltin _ | .unordered | .notAText | .undecodable | .disk _ => none

end LineScript
