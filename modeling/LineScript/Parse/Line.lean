-- SUMMARY: A list of tokens as a list of lines, each holding one statement.
import LineScript.Token

/-!
# Lines of tokens

A statement ends at an end of line or an end of input, so a token list falls into lines before
anything else is known about it. An end of input where a line should start ends the program, and
what follows it is not looked at. Behind its last token the list goes on with its last end of
input, or with one that stands nowhere.
-/

namespace LineScript

/-- The tokens of one statement and the token that ends it. -/
structure Line where
  /-- The tokens in front of the end, none of which ends a statement. -/
  tokens : List Token
  /-- The token that ends the statement. -/
  stop : Token
  /-- The token behind that. -/
  next : Token
  deriving DecidableEq, Repr

namespace Line

/-- The token at which the statement starts. -/
def first (l : Line) : Token := l.tokens.headD l.stop

/-- What the end of a token list goes on with: the last end of input in it. -/
def padding (tokens : List Token) : Token :=
  (tokens.reverse.find? fun t => t.kind = .eof).getD .nowhere

/-- Cut tokens into lines; `seen` are the tokens of the line so far, last first. -/
def cutFrom (pad : Token) (seen : List Token) : List Token → List Line
  | [] => if seen.isEmpty then [] else [⟨seen.reverse, pad, pad⟩]
  | t :: ts =>
    if t.kind = .eof && seen.isEmpty then []
    else if t.kind.endsStatement then ⟨seen.reverse, t, ts.headD pad⟩ :: cutFrom pad [] ts
    else cutFrom pad (t :: seen) ts

/-- The lines of a token list. -/
def cut (tokens : List Token) : List Line := cutFrom (padding tokens) [] tokens

end Line

end LineScript
