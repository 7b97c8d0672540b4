-- SUMMARY: Parsing the tokens of one line into a statement by a machine with a stack.
import LineScript.Node
import LineScript.Parse.Error
import LineScript.Parse.Line
import LineScript.Word32

/-!
# Statements

A statement is a binding, a print with one or more arguments, or nothing. Expressions have one
precedence level and group to the right, a unary operator takes one operand, and parentheses leave
no trace in the tree. The parser reads each token once; its stack holds what is open to the left of
the current token, innermost first.
-/

namespace LineScript

namespace Statement

/-! ## The state of the parser -/

/-- What is open to the left of the current token. -/
inductive Frame where
  /-- An operator in front of the operand to come. -/
  | unary (op : UnaryOp)
  /-- A parenthesis. -/
  | group
  /-- An operator and its left operand. -/
  | binary (left : Node) (op : BinaryOp)
  deriving DecidableEq, Repr

/-- The statement that the expression to come belongs to. -/
inductive Head where
  | binding (name : String)
  /-- A print, with the arguments so far. -/
  | print (done : List Node)
  deriving DecidableEq, Repr

/-- Where the parser stands: in front of an operand or behind one. -/
inductive State where
  | wanting (head : Head) (stack : List Frame)
  | having (operand : Node) (head : Head) (stack : List Frame)
  deriving DecidableEq, Repr

/-- The statement with its last expression. -/
def Head.complete (expr : Node) : Head → Node
  | .binding name => .ofBinding name expr
  | .print done => .ofPrint (done ++ [expr])

/-- An operand is complete: the unary operators in front of it apply. -/
def fill (operand : Node) (head : Head) : List Frame → State
  | .unary op :: stack => fill (.ofUnary op operand) head stack
  | stack => .having operand head stack

/-- An expression is complete: the operators to the left apply, up to an open parenthesis. -/
def close (expr : Node) : List Frame → Node × List Frame
  | .binary left op :: stack => close (.ofBinary op left expr) stack
  | .unary op :: stack => close (.ofUnary op expr) stack
  | stack => (expr, stack)

/-! ## Steps -/

/-- The number that a token stands for. -/
def number (t : Token) : Except ParseError Int :=
  match Numeral.read? t.text with
  | none => .error .unreadable
  | some n => if Word32.Fits n then .ok n else .error (.outOfRange t.text)

/-- A token in front of an operand. -/
def State.operand (head : Head) (stack : List Frame) (t : Token) : Except ParseError State :=
  match t.kind with
  | .ident => .ok (fill (.ofName t.text) head stack)
  | .int => (number t).map fun n => fill (.literal (.int n)) head stack
  | .true => .ok (fill (.literal (.bool true)) head stack)
  | .false => .ok (fill (.literal (.bool false)) head stack)
  | .lparen => .ok (.wanting head (.group :: stack))
  | k =>
    match UnaryOp.ofKind? k with
    | some op => .ok (.wanting head (.unary op :: stack))
    | none => .error (.unexpected t none)

/-- A token that ends the expression in front of it. -/
def State.ending (expr : Node) (head : Head) (stack : List Frame) (t : Token) :
    Except ParseError State :=
  match close expr stack with
  | (expr, .group :: stack) =>
    if t.kind = .rparen then .ok (fill expr head stack) else .error (.unexpected t (some .closing))
  | (expr, _) =>
    match head with
    | .print done =>
      if t.kind = .comma then .ok (.wanting (.print (done ++ [expr])) [])
      else .error (.unexpected t none)
    | .binding _ => .error (.unexpected t none)

/-- Take one token of the line. -/
def State.step : State → Token → Except ParseError State
  | .wanting head stack, t => State.operand head stack t
  | .having expr head stack, t =>
    match BinaryOp.ofKind? t.kind with
    | some op => .ok (.wanting head (.binary expr op :: stack))
    | none => State.ending expr head stack t

/-- Take the end of the line. -/
def State.finish (stop : Token) : State → Except ParseError Node
  | .wanting .. => .error (.unexpected stop none)
  | .having expr head stack =>
    match close expr stack with
    | (expr, []) => .ok (head.complete expr)
    | _ => .error (.unexpected stop (some .closing))

/-! ## Lines -/

/-- An error, and the tokens of the line that were left when it arose. -/
structure Stuck where
  error : ParseError
  rest : List Token
  deriving DecidableEq, Repr

/-- Parse the rest of a line. -/
def parseFrom (stop : Token) (state : State) : List Token → Except Stuck Node
  | [] => (state.finish stop).mapError fun e => ⟨e, []⟩
  | t :: ts =>
    match state.step t with
    | .ok state => parseFrom stop state ts
    | .error e => .error ⟨e, t :: ts⟩

/-- Parse a binding from its name on. -/
def parseBinding (stop : Token) : List Token → Except Stuck Node
  | [] => .error ⟨.unexpected stop (some .identifier), []⟩
  | [name] =>
    if name.kind = .ident then .error ⟨.unexpected stop (some .assign), [name]⟩
    else .error ⟨.unexpected name (some .identifier), [name]⟩
  | name :: assign :: body =>
    if name.kind ≠ .ident then .error ⟨.unexpected name (some .identifier), name :: assign :: body⟩
    else if assign.kind ≠ .assign then
      .error ⟨.unexpected assign (some .assign), name :: assign :: body⟩
    else parseFrom stop (.wanting (.binding name.text) []) body

/-- The second token is an assignment sign. -/
def isRebinding : List Token → Bool
  | _ :: t :: _ => t.kind = .assign
  | _ => false

/-- Parse a line. -/
def parse (l : Line) : Except Stuck Node :=
  match l.tokens with
  | [] => .ok .blank
  | t :: ts =>
    if t.kind = .const then parseBinding l.stop ts
    else if t.kind = .ident && isRebinding (t :: ts) then parseBinding l.stop (t :: ts)
    else if t.kind = .print then parseFrom l.stop (.wanting (.print []) []) ts
    else .error ⟨.unexpected t none, t :: ts⟩

end Statement

end LineScript
