-- SUMMARY: Program trees.
import LineScript.Json
import LineScript.Operator

/-!
# Program trees

A program is a list of statements, a statement binds a name, calls a builtin or does nothing, and
expressions are built from literals and names by operators. Trees that come from storage are less
regular than those that come from source text, so a tree may hold any JSON value as a name or an
operator, any node in any place, and a bare value where a node should be.
-/

namespace LineScript

/-- A literal. -/
inductive Literal where
  | int (value : Int)
  | bool (value : Bool)
  deriving DecidableEq, Repr

/-- A bare value in the place of a node. -/
inductive Atom where
  | null
  | bool (value : Bool)
  | int (value : Int)
  | text (value : String)
  deriving DecidableEq, Repr

/-- A node of a program tree. -/
inductive Node where
  | program (body : List Node)
  | binding (name : Json) (expr : Node)
  | call (name : Json) (args : List Node)
  | blank
  | binary (op : Json) (left right : Node)
  | unary (op : Json) (operand : Node)
  | literal (value : Literal)
  | ident (name : Json)
  | atom (value : Atom)
  deriving Repr

instance : Inhabited Node := ⟨.blank⟩

namespace Node

/-! ## Equality -/

mutual

/-- The two trees are the same. -/
def same : Node → Node → Bool
  | .program as, .program bs => sameAll as bs
  | .binding n a, .binding m b => n = m && same a b
  | .call n as, .call m bs => n = m && sameAll as bs
  | .blank, .blank => true
  | .binary o a c, .binary p b d => o = p && same a b && same c d
  | .unary o a, .unary p b => o = p && same a b
  | .literal v, .literal w => v = w
  | .ident n, .ident m => n = m
  | .atom v, .atom w => v = w
  | _, _ => false
termination_by structural a => a

/-- The trees of two lists are the same in pairs. -/
def sameAll : List Node → List Node → Bool
  | [], [] => true
  | a :: as, b :: bs => same a b && sameAll as bs
  | _, _ => false
termination_by structural as => as

end

mutual

theorem same_iff (a b : Node) : same a b = true ↔ a = b := by
  cases a with
  | program as => cases b <;> simp [same, sameAll_iff as]
  | binding n a => cases b <;> simp [same, same_iff a]
  | call n as => cases b <;> simp [same, sameAll_iff as]
  | blank => cases b <;> simp [same]
  | binary o a c => cases b <;> simp [same, same_iff a, same_iff c, and_assoc]
  | unary o a => cases b <;> simp [same, same_iff a]
  | literal v => cases b <;> simp [same]
  | ident n => cases b <;> simp [same]
  | atom v => cases b <;> simp [same]

theorem sameAll_iff (as bs : List Node) : sameAll as bs = true ↔ as = bs := by
  cases as with
  | nil => cases bs <;> simp [sameAll]
  | cons a as => cases bs <;> simp [sameAll, same_iff a, sameAll_iff as]

end

instance : DecidableEq Node := fun a b => decidable_of_iff (same a b = true) (same_iff a b)

/-! ## Kinds -/

/-- The name of the kind of a node, as stored programs and reports give it. -/
def typeName : Node → String
  | .program _ => "Program"
  | .binding .. => "ConstBinding"
  | .call .. => "BuiltinCall"
  | .blank => "EmptyStmt"
  | .binary .. => "BinaryOp"
  | .unary .. => "UnaryOp"
  | .literal _ => "Literal"
  | .ident _ => "Ident"
  | .atom .null => "NoneType"
  | .atom (.bool _) => "bool"
  | .atom (.int _) => "int"
  | .atom (.text _) => "str"

/-- The kind of a node as messages about a node out of place give it. -/
def classText : Node → String
  | .atom a => "<class '" ++ typeName (.atom a) ++ "'>"
  | n => "<class 'plinth.ast." ++ n.typeName ++ "'>"

/-! ## Building -/

/-- A use of a name. -/
def ofName (name : String) : Node := .ident (.text name)

/-- An operator between two operands. -/
def ofBinary (op : BinaryOp) (left right : Node) : Node := .binary (.text op.symbol) left right

/-- An operator in front of an operand. -/
def ofUnary (op : UnaryOp) (operand : Node) : Node := .unary (.text op.symbol) operand

/-- A binding of a name. -/
def ofBinding (name : String) (expr : Node) : Node := .binding (.text name) expr

/-- A print statement. -/
def ofPrint (args : List Node) : Node := .call (.text "print") args

end Node

end LineScript
