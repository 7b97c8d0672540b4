-- SUMMARY: Why a list of tokens is no program.
import LineScript.Token

/-!
# Parse errors

A token stands where the grammar does not allow it, or a token of kind `int` has a text that is no
signed 32-bit number. The second cannot happen to tokens of source text, except that source text
with an overlong run of digits is refused as a whole.
-/

namespace LineScript

/-- What had to come in the place of an unexpected token. -/
inductive Expected where
  | identifier
  | assign
  | closing
  deriving DecidableEq, Repr

/-- How messages name what had to come. -/
def Expected.text : Expected → String
  | identifier => "identifier"
  | assign => "'='"
  | closing => "')'"

/-- Why tokens cannot be parsed. -/
inductive ParseError where
  | unexpected (token : Token) (expected : Option Expected)
  /-- A numeral that cannot be read. -/
  | unreadable
  /-- A numeral outside the range of a signed 32-bit word. -/
  | outOfRange (text : String)
  deriving DecidableEq, Repr

namespace ParseError

/-- What messages say was found. -/
def found (t : Token) : String :=
  if t.kind = .eof then "end of input"
  else if t.kind = .eol then "end of line"
  else t.describe

/-- What is said about an unexpected token. -/
def unexpectedText (t : Token) : Option Expected → String
  | some e => "expected " ++ e.text ++ " at " ++ t.position ++ ", got " ++ found t
  | none => "unexpected token " ++ found t ++ " at " ++ t.position

/-- The text of an error; a numeral that cannot be read has none. -/
def message? : ParseError → Option String
  | .unexpected t e => some (unexpectedText t e)
  | .unreadable => none
  | .outOfRange text => some ("integer literal " ++ text ++ " out of 32-bit range")

/-- The line that tells a user of an error; only an unexpected token is something to tell. -/
def report? : ParseError → Option String
  | .unexpected t e => some ("Parse error: " ++ unexpectedText t e ++ "\n")
  | .unreadable | .outOfRange _ => none

end ParseError

end LineScript
