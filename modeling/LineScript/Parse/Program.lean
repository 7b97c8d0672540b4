-- SUMMARY: Parsing tokens and source text into programs, with the notes that a trace shows.
import LineScript.Parse.Statement
import LineScript.Token.Lexer

/-!
# Programs

A program is the statements of its lines, and the first line that is no statement decides the
error. The notes of a parse say where each statement starts and which token became the current one,
step by step.
-/

namespace LineScript

namespace Program

/-- The statements of lines, up to the first line that is none. -/
def statements : List Line → Except ParseError (List Node)
  | [] => .ok []
  | l :: ls =>
    match Statement.parse l with
    | .error stuck => .error stuck.error
    | .ok s => (statements ls).map (s :: ·)

/-- Parse a token list. -/
def ofTokens (tokens : List Token) : Except ParseError Node :=
  (statements (Line.cut tokens)).map Node.program

/-- Parse source text. -/
def ofSource (source : List Char) : Except ParseError Node :=
  match Token.tokenize? source with
  | none => .error .unreadable
  | some tokens => ofTokens tokens

/-! ## Notes -/

/-- A step of the parser. -/
inductive Note where
  /-- A statement starts at the token. -/
  | statement (first : Token)
  /-- The token becomes the current one. -/
  | advance (current : Token)
  deriving DecidableEq, Repr

/-- The text of a note. -/
def Note.text : Note → String
  | .statement t => "statement at " ++ t.position
  | .advance t => "advance: " ++ t.describe

/-- The notes on a line: every token behind the first that the parser came to, and behind a complete
    statement the first token of the next line. -/
def lineNotes (l : Line) : List Note :=
  match Statement.parse l with
  | .ok _ => .statement l.first :: ((l.tokens ++ [l.stop, l.next]).drop 1).map .advance
  | .error stuck =>
    .statement l.first ::
      (((l.tokens ++ [l.stop]).drop 1).take (l.tokens.length - stuck.rest.length)).map .advance

/-- The notes on lines, up to the first line that is no statement. -/
def notes : List Line → List Note
  | [] => []
  | l :: ls =>
    match Statement.parse l with
    | .ok _ => lineNotes l ++ notes ls
    | .error _ => lineNotes l

/-- The notes on a token list. -/
def tokenNotes (tokens : List Token) : List Note := notes (Line.cut tokens)

/-- The notes on source text; text that is no token list has none. -/
def sourceNotes (source : List Char) : List Note :=
  match Token.tokenize? source with
  | none => []
  | some tokens => tokenNotes tokens

end Program

end LineScript
