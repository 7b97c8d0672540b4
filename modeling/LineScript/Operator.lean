-- SUMMARY: The operators of the language, with their symbols and the tokens that stand for them.
import LineScript.Token

/-!
# Operators

There are fourteen binary operators, all of one precedence, and three unary ones.
-/

namespace LineScript

/-- A binary operator. -/
inductive BinaryOp where
  | add
  | sub
  | mul
  | div
  | mod
  | eq
  | ne
  | gt
  | lt
  | ge
  | le
  | and
  | or
  | xor
  deriving DecidableEq, Repr

namespace BinaryOp

/-- How the operator is written. -/
def symbol : BinaryOp → String
  | add => "+"
  | sub => "-"
  | mul => "*"
  | div => "/"
  | mod => "%"
  | eq => "=="
  | ne => "!="
  | gt => ">"
  | lt => "<"
  | ge => ">="
  | le => "<="
  | and => "and"
  | or => "or"
  | xor => "xor"

/-- All binary operators. -/
def all : List BinaryOp := [add, sub, mul, div, mod, eq, ne, gt, lt, ge, le, and, or, xor]

/-- The operator with the given symbol. -/
def ofSymbol? (s : String) : Option BinaryOp := all.find? fun op => op.symbol = s

/-- The operator that a token of the given kind stands for between two operands. -/
def ofKind? : Token.Kind → Option BinaryOp
  | .plus => some add
  | .minus => some sub
  | .asterisk => some mul
  | .slash => some div
  | .percent => some mod
  | .eq => some eq
  | .ne => some ne
  | .gt => some gt
  | .lt => some lt
  | .ge => some ge
  | .le => some le
  | .and => some and
  | .or => some or
  | .xor => some xor
  | _ => none

end BinaryOp

/-- A unary operator. -/
inductive UnaryOp where
  | neg
  | pos
  | not
  deriving DecidableEq, Repr

namespace UnaryOp

/-- How the operator is written. -/
def symbol : UnaryOp → String
  | neg => "-"
  | pos => "+"
  | not => "not"

/-- All unary operators. -/
def all : List UnaryOp := [neg, pos, not]

/-- The operator with the given symbol. -/
def ofSymbol? (s : String) : Option UnaryOp := all.find? fun op => op.symbol = s

/-- The operator that a token of the given kind stands for in front of an operand. -/
def ofKind? : Token.Kind → Option UnaryOp
  | .minus => some neg
  | .plus => some pos
  | .not => some not
  | _ => none

end UnaryOp

end LineScript
