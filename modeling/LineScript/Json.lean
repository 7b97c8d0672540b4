-- SUMMARY: JSON values, with integers and fractions apart and object fields in order.
import LineScript.Binary64
import LineScript.Text.Quoted

/-!
# JSON values

The values that stored programs are made of. Integers are unbounded and apart from numbers with a
fraction or an exponent, and an object keeps its fields in order of first arrival. `Json.display`
is the form in which messages show a value.
-/

namespace LineScript

/-- A JSON value without parts. -/
inductive Scalar where
  | null
  | bool (value : Bool)
  | int (value : Int)
  | real (value : Binary64)
  | text (value : String)
  deriving DecidableEq, Repr

/-- The value can be written: an integer only if it is not too long. -/
def Scalar.Legible : Scalar → Prop
  | .int n => Numeral.Legible n
  | .null | .bool _ | .real _ | .text _ => True

instance : DecidablePred Scalar.Legible
  | .int n => inferInstanceAs (Decidable (Numeral.Legible n))
  | .null | .bool _ | .real _ | .text _ => .isTrue trivial

/-- A JSON value. -/
inductive Json where
  | scalar (value : Scalar)
  | list (items : List Json)
  | object (fields : List (String × Json))
  deriving Repr

instance : Inhabited Json := ⟨.scalar .null⟩

namespace Json

@[match_pattern] abbrev null : Json := .scalar .null
@[match_pattern] abbrev bool (b : Bool) : Json := .scalar (.bool b)
@[match_pattern] abbrev int (n : Int) : Json := .scalar (.int n)
@[match_pattern] abbrev real (x : Binary64) : Json := .scalar (.real x)
@[match_pattern] abbrev text (s : String) : Json := .scalar (.text s)

/-! ## Equality -/

mutual

/-- Equality of JSON values is decidable. -/
def decEq : (a b : Json) → Decidable (a = b)
  | .scalar a, .scalar b => decidable_of_iff (a = b) (by simp)
  | .list as, .list bs =>
    have := decEqItems as bs
    decidable_of_iff (as = bs) (by simp)
  | .object fs, .object gs =>
    have := decEqFields fs gs
    decidable_of_iff (fs = gs) (by simp)
  | .scalar _, .list _ | .scalar _, .object _ | .list _, .scalar _ | .list _, .object _
  | .object _, .scalar _ | .object _, .list _ => isFalse (by simp)

/-- Equality of the items of two lists is decidable. -/
def decEqItems : (as bs : List Json) → Decidable (as = bs)
  | [], [] => isTrue rfl
  | a :: as, b :: bs =>
    have := decEq a b
    have := decEqItems as bs
    decidable_of_iff (a = b ∧ as = bs) (by simp)
  | [], _ :: _ | _ :: _, [] => isFalse (by simp)

/-- Equality of the fields of two objects is decidable. -/
def decEqFields : (fs gs : List (String × Json)) → Decidable (fs = gs)
  | [], [] => isTrue rfl
  | (k, a) :: fs, (l, b) :: gs =>
    have := decEq a b
    have := decEqFields fs gs
    decidable_of_iff (k = l ∧ a = b ∧ fs = gs) (by simp [and_assoc])
  | [], _ :: _ | _ :: _, [] => isFalse (by simp)

end

instance : DecidableEq Json := decEq

/-! ## Fields -/

/-- Put a field into an object: a new key goes to the end, a present one keeps its place. -/
def putField (fields : List (String × Json)) (key : String) (value : Json) : List (String × Json) :=
  match fields with
  | [] => [(key, value)]
  | (k, v) :: rest => if k = key then (k, value) :: rest else (k, v) :: putField rest key value

/-- The value of a field of an object. -/
def field? (key : String) : Json → Option Json
  | .object fields => fields.lookup key
  | _ => none

/-! ## Display -/

/-- A value without parts, as it is shown inside another value. -/
def showScalar : Scalar → String
  | .null => "None"
  | .bool b => if b then "True" else "False"
  | .int n => Numeral.render n
  | .real x => x.render
  | .text s => Text.quoted s

mutual

/-- A value as it is shown inside another value: texts are quoted. -/
def showNested : Json → String
  | .scalar s => showScalar s
  | .list items => "[" ++ showItems items ++ "]"
  | .object fields => "\x7b" ++ showFields fields ++ "\x7d"
termination_by structural j => j

/-- The items of a list, with commas between. -/
def showItems : List Json → String
  | [] => ""
  | [x] => showNested x
  | x :: y :: xs => showNested x ++ ", " ++ showItems (y :: xs)

/-- The fields of an object, with commas between. -/
def showFields : List (String × Json) → String
  | [] => ""
  | [(k, v)] => Text.quoted k ++ ": " ++ showNested v
  | (k, v) :: f :: fs => Text.quoted k ++ ": " ++ showNested v ++ ", " ++ showFields (f :: fs)

end

/-- A value as messages show it: a text stands for itself, all else as inside another value. -/
def display : Json → String
  | .text s => s
  | j => showNested j

end Json

end LineScript
