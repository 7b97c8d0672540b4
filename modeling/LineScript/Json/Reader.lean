-- SUMMARY: Reading JSON text by a machine with a stack of open lists and objects.
import LineScript.Json.Lexeme

/-!
# Reading JSON text

Lexemes are taken one at a time. The stack holds the lists and objects that are open, innermost
first, each with its parts so far. A key that comes twice keeps its place and takes the last value.
-/

namespace LineScript.Json

/-- Why a text is not read. -/
inductive ReadError where
  | malformed
  /-- An integer with more digits than are ever turned into a number. -/
  | oversized
  deriving DecidableEq, Repr

/-- A list or object that is still open. -/
inductive Frame where
  /-- The items so far, last first. -/
  | list (items : List Json)
  /-- The fields so far, and the key of the value to come. -/
  | object (fields : List (String × Json)) (key : String)

/-- What the reader expects next. -/
inductive Stage where
  | value (stack : List Frame)
  /-- The first item of a list, or its end. -/
  | firstItem (stack : List Frame)
  /-- The first key of an object, or its end. -/
  | firstKey (stack : List Frame)
  | key (fields : List (String × Json)) (stack : List Frame)
  | colon (fields : List (String × Json)) (key : String) (stack : List Frame)
  /-- A value is complete; what becomes of it is up to the innermost open part. -/
  | settled (value : Json) (stack : List Frame)

/-- A lexeme that starts a value. -/
def Stage.begin (stack : List Frame) : Lexeme → Except ReadError Stage
  | .scalar s => .ok (.settled (.scalar s) stack)
  | .openList => .ok (.firstItem stack)
  | .openObject => .ok (.firstKey stack)
  | .oversized => .error .oversized
  | _ => .error .malformed

/-- Take one lexeme. -/
def Stage.step : Stage → Lexeme → Except ReadError Stage
  | .value stack, l => Stage.begin stack l
  | .firstItem stack, .closeList => .ok (.settled (.list []) stack)
  | .firstItem stack, l => Stage.begin (.list [] :: stack) l
  | .firstKey stack, .closeObject => .ok (.settled (.object []) stack)
  | .firstKey stack, .scalar (.text k) => .ok (.colon [] k stack)
  | .key fields stack, .scalar (.text k) => .ok (.colon fields k stack)
  | .colon fields k stack, .colon => .ok (.value (.object fields k :: stack))
  | .settled v (.list items :: stack), .comma => .ok (.value (.list (v :: items) :: stack))
  | .settled v (.list items :: stack), .closeList =>
    .ok (.settled (.list (v :: items).reverse) stack)
  | .settled v (.object fields k :: stack), .comma => .ok (.key (putField fields k v) stack)
  | .settled v (.object fields k :: stack), .closeObject =>
    .ok (.settled (.object (putField fields k v)) stack)
  | _, _ => .error .malformed

/-- The value that the lexemes have given, if they were neither too few nor too many. -/
def Stage.finish : Stage → Except ReadError Json
  | .settled v [] => .ok v
  | _ => .error .malformed

/-- Read the JSON value that makes up the whole text. -/
def read (cs : List Char) : Except ReadError Json := do
  let stage ← (lexemes cs).foldlM Stage.step (.value [])
  stage.finish

end LineScript.Json
