-- SUMMARY: Writing JSON text, over several lines or on one.
import LineScript.Json

/-!
# Writing JSON text

A layout says what is put before each part of a list or object and before its end, and what follows
a colon. Lists and objects without parts are written as a pair of brackets in every layout. Texts
are escaped as little as JSON allows. Every writer puts its text in front of a text that follows.
-/

namespace LineScript.Json

/-- Where white space goes. -/
structure Layout where
  /-- Before a part of a list or object at the given depth, or the end of one. -/
  lineBreak : Nat → List Char
  afterColon : List Char

/-- Each part on a line of its own, indented by two blanks for each level. -/
def Layout.indented : Layout where
  lineBreak depth := '\n' :: List.replicate (2 * depth) ' '
  afterColon := [' ']

/-- All on one line, without blanks. -/
def Layout.compact : Layout where
  lineBreak _ := []
  afterColon := []

/-- How a character is written in a string. -/
def writeChar (c : Char) : List Char :=
  if c = '"' then ['\\', '"']
  else if c = '\\' then ['\\', '\\']
  else if c = '\n' then ['\\', 'n']
  else if c = '\r' then ['\\', 'r']
  else if c = '\t' then ['\\', 't']
  else if c = '\x0c' then ['\\', 'f']
  else if c = '\x08' then ['\\', 'b']
  else if c.toNat < 0x20 then '\\' :: 'u' :: Text.hexDigits 4 c.toNat
  else [c]

/-- A text as a string. -/
def writeText (s : String) (rest : List Char) : List Char :=
  '"' :: (s.toList.flatMap writeChar ++ '"' :: rest)

/-- A value without parts. -/
def writeScalar (s : Scalar) (rest : List Char) : List Char :=
  match s with
  | .null => "null".toList ++ rest
  | .bool true => "true".toList ++ rest
  | .bool false => "false".toList ++ rest
  | .int n => Numeral.chars n ++ rest
  | .real (.finite s m e) => Binary64.finiteChars s m e ++ rest
  | .real (.infinite false) => "Infinity".toList ++ rest
  | .real (.infinite true) => "-Infinity".toList ++ rest
  | .real .nan => "NaN".toList ++ rest
  | .text s => writeText s rest

mutual

/-- A value at the given depth. -/
def write (layout : Layout) (depth : Nat) (j : Json) (rest : List Char) : List Char :=
  match j with
  | .scalar s => writeScalar s rest
  | .list items =>
    if items.isEmpty then '[' :: ']' :: rest
    else '[' :: writeItems layout (depth + 1) items (layout.lineBreak depth ++ ']' :: rest)
  | .object fields =>
    if fields.isEmpty then '\x7b' :: '\x7d' :: rest
    else '\x7b' :: writeFields layout (depth + 1) fields (layout.lineBreak depth ++ '\x7d' :: rest)
termination_by structural j

/-- The items of a list at the given depth. -/
def writeItems (layout : Layout) (depth : Nat) (items : List Json) (rest : List Char) : List Char :=
  match items with
  | [] => rest
  | [x] => layout.lineBreak depth ++ write layout depth x rest
  | x :: y :: ys =>
    layout.lineBreak depth ++
      write layout depth x (',' :: writeItems layout depth (y :: ys) rest)
termination_by structural items

/-- The fields of an object at the given depth. -/
def writeFields (layout : Layout) (depth : Nat) (fields : List (String × Json))
    (rest : List Char) : List Char :=
  match fields with
  | [] => rest
  | [(k, v)] =>
    layout.lineBreak depth ++
      writeText k (':' :: (layout.afterColon ++ write layout depth v rest))
  | (k, v) :: f :: fs =>
    layout.lineBreak depth ++
      writeText k (':' :: (layout.afterColon ++
        write layout depth v (',' :: writeFields layout depth (f :: fs) rest)))
termination_by structural fields

end

/-- The text of a value over several lines. -/
def pretty (j : Json) : String := String.ofList (write .indented 0 j [])

/-- The text of a value on one line. -/
def compact (j : Json) : String := String.ofList (write .compact 0 j [])

end LineScript.Json
