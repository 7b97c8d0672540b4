-- SUMMARY: Cutting source text into tokens, one character at a time.
import LineScript.Token
import LineScript.Word32

/-!
# Tokens of source text

Blanks and comments are dropped, a newline is a token, and every other character is part of exactly
one token, the longest that can start where it starts. A character that starts no token is a token
of its own of kind `illegal`, and so is a run of digits that does not fit a signed 32-bit word, so
`scan` is total. `tokenize` fails on one thing only: a run of more digits than are ever turned into
a number.
-/

namespace LineScript

/-! ## Positions -/

/-- A line and a column, both counted from one. -/
structure Position where
  line : Nat
  column : Nat
  deriving DecidableEq, Repr

namespace Position

/-- The start of a text. -/
def start : Position := ⟨1, 1⟩

/-- The position behind a character. -/
def after (p : Position) (c : Char) : Position :=
  if c = '\n' then ⟨p.line + 1, 1⟩ else ⟨p.line, p.column + 1⟩

end Position

namespace Token

/-- A token at a position. -/
def placed (p : Position) (kind : Kind) (cs : List Char) : Token :=
  ⟨kind, String.ofList cs, p.line, p.column⟩

/-! ## Character classes -/

/-- White space within a line. -/
def isSpace (c : Char) : Bool :=
  c = ' ' || c = '\t' || c = '\x0c' || c = '\x0b' || c = '\r'

/-- A character that can start a name or keyword. -/
def isNameStart (c : Char) : Bool := c.isAlpha || c = '_'

/-- A character that can continue a name or keyword. -/
def isNameChar (c : Char) : Bool := c.isAlphanum || c = '_'

/-! ## Kinds -/

/-- The kind of a name or keyword. -/
def Kind.ofWord (cs : List Char) : Kind :=
  if cs = "const".toList then const
  else if cs = "print".toList then print
  else if cs = "true".toList then true
  else if cs = "false".toList then false
  else if cs = "and".toList then and
  else if cs = "or".toList then or
  else if cs = "xor".toList then xor
  else if cs = "not".toList then not
  else ident

/-- The kind of a run of digits. -/
def Kind.ofDigits (cs : List Char) : Kind :=
  if Word32.Fits (Text.digitsValue cs) then int else illegal

/-- The kind of a character that is a token however the text goes on. -/
def Kind.ofMark : Char → Kind
  | '+' => plus
  | '-' => minus
  | '*' => asterisk
  | '/' => slash
  | '%' => percent
  | '(' => lparen
  | ')' => rparen
  | ',' => comma
  | '\n' => eol
  | _ => illegal

/-- The kinds of a character alone and of the character with `=` behind it, for the characters that
    have both. -/
def Kind.ofPair? : Char → Option (Kind × Kind)
  | '=' => some (assign, eq)
  | '!' => some (illegal, ne)
  | '<' => some (lt, le)
  | '>' => some (gt, ge)
  | _ => none

/-! ## The machine -/

/-- What has been read of the token that is not yet complete; runs are kept last character first. -/
inductive Pending where
  | nothing
  | comment
  | word (start : Position) (seen : List Char)
  | digits (start : Position) (seen : List Char)
  | mark (start : Position) (c : Char) (alone withEq : Kind)
  deriving DecidableEq, Repr

namespace Pending

/-- The token that is complete because nothing more belongs to it. -/
def flush : Pending → List Token
  | .nothing | .comment => []
  | .word start seen => [Token.placed start (.ofWord seen.reverse) seen.reverse]
  | .digits start seen => [Token.placed start (.ofDigits seen.reverse) seen.reverse]
  | .mark start c alone _ => [Token.placed start alone [c]]

/-- A character that belongs to no token before it: the tokens it completes and what is pending. -/
def start (p : Position) (c : Char) : List Token × Pending :=
  if isSpace c then ([], .nothing)
  else if c = '#' then ([], .comment)
  else if isNameStart c then ([], .word p [c])
  else if c.isDigit then ([], .digits p [c])
  else
    match Kind.ofPair? c with
    | some (alone, withEq) => ([], .mark p c alone withEq)
    | none => ([Token.placed p (.ofMark c) [c]], .nothing)

/-- The character belongs to what is pending. -/
def extend? (pending : Pending) (c : Char) : Option (List Token × Pending) :=
  match pending with
  | .nothing => none
  | .comment => if c = '\n' then none else some ([], .comment)
  | .word p seen => if isNameChar c then some ([], .word p (c :: seen)) else none
  | .digits p seen => if c.isDigit then some ([], .digits p (c :: seen)) else none
  | .mark p m _ withEq => if c = '=' then some ([Token.placed p withEq [m, c]], .nothing) else none

/-- The tokens completed by a character at a position, and what is pending after it. -/
def step (pending : Pending) (p : Position) (c : Char) : List Token × Pending :=
  match pending.extend? c with
  | some next => next
  | none => (pending.flush ++ (start p c).1, (start p c).2)

end Pending

/-- The tokens of a text that starts at a position, behind what is pending. -/
def scanFrom (pending : Pending) (p : Position) : List Char → List Token
  | [] => pending.flush ++ [Token.placed p .eof []]
  | c :: cs => (pending.step p c).1 ++ scanFrom (pending.step p c).2 (p.after c) cs

/-- The tokens of a text, the last of them the end of input. -/
def scan (cs : List Char) : List Token := scanFrom .nothing .start cs

/-- The token is a run of more digits than are ever turned into a number. -/
def isOversized (t : Token) : Bool :=
  Numeral.maxDigits < t.text.toList.length && t.text.toList.all Char.isDigit

/-- The tokens of a text, unless one of them is a run of too many digits. -/
def tokenize? (cs : List Char) : Option (List Token) :=
  let tokens := scan cs
  if tokens.any isOversized then none else some tokens

end Token

end LineScript
