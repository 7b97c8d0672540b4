-- SUMMARY: Tokens: their kinds, texts and positions.
import LineScript.Numeral
import LineScript.Text.Quoted

/-!
# Tokens

A token has a kind, the text it was read from, and the line and column where that text starts, both
counted from one. Tokens may also come from elsewhere than source text, with kinds that no source
gives and positions that stand nowhere.
-/

namespace LineScript

namespace Token

/-- The kinds of tokens. -/
inductive Kind where
  | const
  | print
  | true
  | false
  | and
  | or
  | xor
  | not
  | ident
  | int
  | eq
  | ne
  | ge
  | le
  | gt
  | lt
  | assign
  | plus
  | minus
  | asterisk
  | slash
  | percent
  | lparen
  | rparen
  | comma
  | eol
  | eof
  | illegal
  /-- A kind that no source text gives. -/
  | other (name : String)
  deriving DecidableEq, Repr

namespace Kind

/-- The name of a kind in messages. -/
def name : Kind → String
  | const => "CONST"
  | print => "PRINT"
  | true => "TRUE"
  | false => "FALSE"
  | and => "AND"
  | or => "OR"
  | xor => "XOR"
  | not => "NOT"
  | ident => "IDENT"
  | int => "INT"
  | eq => "EQ"
  | ne => "NE"
  | ge => "GE"
  | le => "LE"
  | gt => "GT"
  | lt => "LT"
  | assign => "ASSIGN"
  | plus => "PLUS"
  | minus => "MINUS"
  | asterisk => "ASTERISK"
  | slash => "SLASH"
  | percent => "PERCENT"
  | lparen => "LPAREN"
  | rparen => "RPAREN"
  | comma => "COMMA"
  | eol => "EOL"
  | eof => "EOF"
  | illegal => "ILLEGAL"
  | other name => name

/-- The kinds that source text gives. -/
def all : List Kind :=
  [const, print, true, false, and, or, xor, not, ident, int, eq, ne, ge, le, gt, lt, assign, plus,
   minus, asterisk, slash, percent, lparen, rparen, comma, eol, eof, illegal]

/-- The kind with the given name. -/
def ofName (s : String) : Kind := (all.find? fun k => k.name = s).getD (other s)

/-- A token of this kind ends a statement. -/
def endsStatement (k : Kind) : Bool := k = eol || k = eof

end Kind

end Token

/-- A token. -/
structure Token where
  kind : Token.Kind
  text : String
  line : Int
  column : Int
  deriving DecidableEq, Repr

namespace Token

/-- The end of input at no position. -/
def nowhere : Token := ⟨.eof, "", 0, 0⟩

/-- Where a token stands. -/
def position (t : Token) : String := Numeral.render t.line ++ ":" ++ Numeral.render t.column

/-- Kind and text of a token. -/
def describe (t : Token) : String := t.kind.name ++ " " ++ Text.quoted t.text

/-- All there is to a token. -/
def render (t : Token) : String :=
  "Token(" ++ t.kind.name ++ ", " ++ Text.quoted t.text ++ ", " ++ t.position ++ ")"

end Token

end LineScript
