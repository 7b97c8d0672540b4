-- SUMMARY: Program trees as JSON values, in both directions.
import LineScript.Node

/-!
# Stored program trees

A node is stored as an object whose field `type` names its kind. Reading back is lenient: fields
that are not looked at are ignored, the statements of a program and the arguments of a call may come
as a list, as the characters of a text or as the keys of an object, and the values of literals are
converted to the type that the literal declares. Fields are looked at in a fixed order, and the
first that is missing or wrong decides the error.
-/

namespace LineScript

/-- Why a JSON value is no stored tree, or a value cannot be stored. -/
inductive StoredError where
  /-- A list, or a number with a fraction, in the place of a node. -/
  | notANode
  | unknownType (type : Json)
  | unknownLiteralType (type : Json)
  | missingField (key : String)
  /-- Statements or arguments that have no parts. -/
  | notASequence
  /-- An integer literal whose value is of a kind that has no integer. -/
  | notANumber
  /-- An integer literal whose value is a text or number that gives no integer. -/
  | unreadable
  /-- An integer literal whose value is infinite. -/
  | infinite
  /-- A value of the named kind, which is never stored. -/
  | unsupported (kind : String)
  deriving DecidableEq, Repr

namespace StoredError

/-- The text of an error; some have none. -/
def message? : StoredError → Option String
  | .notANode => some "Invalid AST object"
  | .unknownType t => some ("Unknown AST node type: " ++ t.display)
  | .unknownLiteralType t => some ("Unknown literal type: " ++ t.display)
  | .unsupported kind => some ("Unsupported node for serialization: " ++ kind)
  | .missingField _ | .notASequence | .notANumber | .unreadable | .infinite => none

end StoredError

/-! ## Writing -/

/-- A bare value as JSON. -/
def Atom.toJson : Atom → Json
  | .null => .null
  | .bool b => .bool b
  | .int n => .int n
  | .text s => .text s

/-- The value of a literal as JSON. -/
def Literal.toJson : Literal → Json
  | .int n => .int n
  | .bool b => .bool b

/-- The type that a stored literal declares. -/
def Literal.typeName : Literal → String
  | .int _ => "Integer"
  | .bool _ => "Boolean"

namespace Node

mutual

/-- A tree as it is stored. -/
def toJson : Node → Json
  | .program body => .object [("type", .text "Program"), ("body", .list (toJsonAll body))]
  | .binding name expr =>
    .object [("type", .text "ConstBinding"), ("name", name), ("expr", toJson expr)]
  | .call name args =>
    .object [("type", .text "BuiltinCall"), ("name", name), ("args", .list (toJsonAll args))]
  | .blank => .object [("type", .text "EmptyStmt")]
  | .binary op left right =>
    .object [("type", .text "BinaryOp"), ("op", op), ("left", toJson left), ("right", toJson right)]
  | .unary op operand =>
    .object [("type", .text "UnaryOp"), ("op", op), ("operand", toJson operand)]
  | .literal v =>
    .object [("type", .text "Literal"), ("value", v.toJson), ("literal_type", .text v.typeName)]
  | .ident name => .object [("type", .text "Ident"), ("name", name)]
  | .atom a => a.toJson
termination_by structural n => n

/-- Trees as they are stored. -/
def toJsonAll : List Node → List Json
  | [] => []
  | n :: ns => toJson n :: toJsonAll ns
termination_by structural ns => ns

end

/-! ## Literals -/

/-- The integer that a value converts to. -/
def integerOf : Json → Except StoredError Int
  | .bool b => .ok (if b then 1 else 0)
  | .int n => .ok n
  | .real (.finite s m e) => .ok (Binary64.truncate s m e)
  | .real (.infinite _) => .error .infinite
  | .real .nan => .error .unreadable
  | .text s => (Numeral.read? s).elim (.error .unreadable) .ok
  | .null | .list _ | .object _ => .error .notANumber

/-- The truth value that a value converts to: what is empty or zero is false. -/
def truthOf : Json → Bool
  | .null => false
  | .bool b => b
  | .int n => n ≠ 0
  | .real x => !x.isZero
  | .text s => s ≠ ""
  | .list items => !items.isEmpty
  | .object fields => !fields.isEmpty

/-- The literal with a declared type and a value. -/
def literalOf (type value : Json) : Except StoredError Literal :=
  if type = .text "Boolean" then .ok (.bool (truthOf value))
  else if type = .text "Integer" then (integerOf value).map .int
  else .error (.unknownLiteralType type)

/-! ## Reading -/

/-- A field of an object, read in each of the ways that a node may ask for. -/
structure Part where
  /-- The value itself. -/
  raw : Json
  /-- The node that it stores. -/
  node : Except StoredError Node
  /-- The nodes that its parts store. -/
  items : Except StoredError (List Node)

/-- The field with the given key. -/
def part (parts : List (String × Part)) (key : String) : Except StoredError Part :=
  match parts.lookup key with
  | some p => .ok p
  | none => .error (.missingField key)

/-- The node that an object with the given fields stores. -/
def ofParts (parts : List (String × Part)) : Except StoredError Node :=
  let type := ((parts.lookup "type").map Part.raw).getD .null
  if type = .text "Program" then do
    let body ← (← part parts "body").items
    return .program body
  else if type = .text "ConstBinding" then do
    let name ← part parts "name"
    let expr ← (← part parts "expr").node
    return .binding name.raw expr
  else if type = .text "BuiltinCall" then do
    let name ← part parts "name"
    let args ← (← part parts "args").items
    return .call name.raw args
  else if type = .text "EmptyStmt" then
    return .blank
  else if type = .text "BinaryOp" then do
    let op ← part parts "op"
    let left ← (← part parts "left").node
    let right ← (← part parts "right").node
    return .binary op.raw left right
  else if type = .text "UnaryOp" then do
    let op ← part parts "op"
    let operand ← (← part parts "operand").node
    return .unary op.raw operand
  else if type = .text "Literal" then do
    let declared ← part parts "literal_type"
    let value ← part parts "value"
    let literal ← literalOf declared.raw value.raw
    return .literal literal
  else if type = .text "Ident" then do
    let name ← part parts "name"
    return .ident name.raw
  else
    .error (.unknownType type)

/-- A text in the place of a node. -/
def ofText (s : String) : Node := .atom (.text s)

mutual

/-- The tree that a JSON value stores. -/
def ofJson : Json → Except StoredError Node
  | .scalar .null => .ok (.atom .null)
  | .scalar (.bool b) => .ok (.atom (.bool b))
  | .scalar (.int n) => .ok (.atom (.int n))
  | .scalar (.text s) => .ok (.atom (.text s))
  | .scalar (.real _) => .error .notANode
  | .list _ => .error .notANode
  | .object fields => ofParts (partsOf fields)
termination_by structural j => j

/-- The trees that the parts of a JSON value store. -/
def itemsOf : Json → Except StoredError (List Node)
  | .list items => ofJsonAll items
  | .scalar (.text s) => .ok (s.toList.map fun c => ofText (String.singleton c))
  | .object fields => .ok (fields.map fun f => ofText f.1)
  | .scalar _ => .error .notASequence
termination_by structural j => j

/-- The trees that JSON values store. -/
def ofJsonAll : List Json → Except StoredError (List Node)
  | [] => .ok []
  | j :: js => do
    let n ← ofJson j
    let ns ← ofJsonAll js
    return n :: ns
termination_by structural js => js

/-- The fields of an object, read in each way. -/
def partsOf : List (String × Json) → List (String × Part)
  | [] => []
  | (k, v) :: fs => (k, ⟨v, ofJson v, itemsOf v⟩) :: partsOf fs
termination_by structural fs => fs

end

/-- A JSON value as it is stored when it is given in the place of a tree: a bare value stands for
    itself, and nothing else can be stored. -/
def storeRaw : Json → Except StoredError Json
  | .real _ => .error (.unsupported "float")
  | .scalar s => .ok (.scalar s)
  | .list _ => .error (.unsupported "list")
  | .object _ => .error (.unsupported "dict")

end Node

end LineScript
