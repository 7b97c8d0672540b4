-- SUMMARY: Runtime values, their types and their printed form.
import LineScript.Numeral

/-!
# Values

Programs compute with integers, truth values and the absence of a value. Texts and null enter only
through bindings made from outside, and so do integers of any length, which may be too long to be
written.
-/

namespace LineScript

/-- A runtime value. -/
inductive Value where
  | int (value : Int)
  | bool (value : Bool)
  | undefined
  | text (value : String)
  | null
  deriving DecidableEq, Repr

/-- The type of a runtime value. -/
inductive ValueType where
  | integer
  | boolean
  | undefined
  | text
  | null
  deriving DecidableEq, Repr

/-- The name of a type in messages. -/
def ValueType.name : ValueType → String
  | integer => "Integer"
  | boolean => "Boolean"
  | undefined => "Undefined"
  | text => "str"
  | null => "NoneType"

namespace Value

/-- The type of a value. -/
def type : Value → ValueType
  | .int _ => .integer
  | .bool _ => .boolean
  | .undefined => .undefined
  | .text _ => .text
  | .null => .null

/-- The text of a value. -/
def render : Value → String
  | .int n => Numeral.render n
  | .bool b => if b then "true" else "false"
  | .undefined => "undefined"
  | .text s => s
  | .null => "None"

/-- The value can be written: an integer only if it is not too long. -/
def Legible : Value → Prop
  | .int n => Numeral.Legible n
  | .bool _ | .undefined | .text _ | .null => True

instance : DecidablePred Legible
  | .int n => inferInstanceAs (Decidable (Numeral.Legible n))
  | .bool _ | .undefined | .text _ | .null => .isTrue trivial

/-- The text that is written for a value, if it can be written. -/
def render? (v : Value) : Option String := if v.Legible then some v.render else none

end Value

end LineScript
