-- SUMMARY: What the operators compute.
import LineScript.Fault
import LineScript.Word32

/-!
# Operations

Arithmetic takes two integers and comparison gives a truth value; conjunction, disjunction and
exclusive disjunction take two truth values. Sums, differences, products, quotients and negations
are brought back to a signed 32-bit word, remainders are not. In the legacy dialect `<=` and `>=`
are swapped, `xor` is `or`, and an operator on two operands of one wrong type reports the two types
the other way round.
-/

namespace LineScript

/-- The two readings of the operators. -/
inductive Dialect where
  | standard
  | legacy
  deriving DecidableEq, Repr

/-- The fault of an operator that wants operands of one type and gets two of another. -/
def Dialect.mismatch (dialect : Dialect) (wanted got : ValueType) : Fault :=
  match dialect with
  | .standard => .typeMismatch wanted got
  | .legacy => .typeMismatch got wanted

namespace UnaryOp

/-- The operator that a tree names. -/
def ofJson? : Json → Option UnaryOp
  | .text s => ofSymbol? s
  | _ => none

/-- Apply an operator. -/
def apply : UnaryOp → Value → Except Fault Value
  | .neg, .int n => .ok (.int (Word32.wrap (-n)))
  | .pos, .int n => .ok (.int n)
  | .not, .bool b => .ok (.bool !b)
  | .neg, v | .pos, v => .error (.typeMismatch .integer v.type)
  | .not, v => .error (.typeMismatch .boolean v.type)

end UnaryOp

namespace BinaryOp

/-- The operator that a tree names. -/
def ofJson? : Json → Option BinaryOp
  | .text s => ofSymbol? s
  | _ => none

/-- Apply an operator to two integers. -/
def applyInt (dialect : Dialect) (op : BinaryOp) (a b : Int) : Except Fault Value :=
  match op with
  | .add => .ok (.int (Word32.wrap (a + b)))
  | .sub => .ok (.int (Word32.wrap (a - b)))
  | .mul => .ok (.int (Word32.wrap (a * b)))
  | .div =>
    match Word32.quotient? a b with
    | some q => .ok (.int (Word32.wrap q))
    | none => .error (.divisionByZero .div)
  | .mod =>
    match Word32.remainder? a b with
    | some r => .ok (.int r)
    | none => .error (.divisionByZero .mod)
  | .eq => .ok (.bool (a = b))
  | .ne => .ok (.bool (a ≠ b))
  | .gt => .ok (.bool (a > b))
  | .lt => .ok (.bool (a < b))
  | .le =>
    match dialect with
    | .standard => .ok (.bool (a ≤ b))
    | .legacy => .ok (.bool (a ≥ b))
  | .ge =>
    match dialect with
    | .standard => .ok (.bool (a ≥ b))
    | .legacy => .ok (.bool (a ≤ b))
  | .and | .or | .xor => .error (dialect.mismatch .boolean .integer)

/-- Apply an operator to two truth values. -/
def applyBool (dialect : Dialect) (op : BinaryOp) (a b : Bool) : Except Fault Value :=
  match op with
  | .and => .ok (.bool (a && b))
  | .or => .ok (.bool (a || b))
  | .xor =>
    match dialect with
    | .standard => .ok (.bool (a != b))
    | .legacy => .ok (.bool (a || b))
  | _ => .error (dialect.mismatch .integer .boolean)

end BinaryOp

/-- Apply the unary operator that a tree names. -/
def applyUnary (op : Json) (v : Value) : Except RunError Value :=
  match UnaryOp.ofJson? op with
  | some op => (op.apply v).mapError .fault
  | none => .error (.unknownUnary op)

/-- Apply the binary operator that a tree names. The types of the operands are looked at before the
    operator is. -/
def applyBinary (dialect : Dialect) (op : Json) (a b : Value) : Except RunError Value :=
  match a, b with
  | .int a, .int b =>
    match BinaryOp.ofJson? op with
    | some op => (op.applyInt dialect a b).mapError .fault
    | none => .error (.unknownBinary op)
  | .bool a, .bool b =>
    match BinaryOp.ofJson? op with
    | some op => (op.applyBool dialect a b).mapError .fault
    | none => .error (.unknownBinary op)
  | a, b => .error (.fault (.typeMismatch a.type b.type))

end LineScript
