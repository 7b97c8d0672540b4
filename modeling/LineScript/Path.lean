-- SUMMARY: File paths and the places they lead to.

/-!
# Paths

A path is a root and names. Empty names and `.` are dropped on reading, `..` is kept, and exactly
two slashes at the start are a root of their own.
-/

namespace LineScript

/-- A file path. -/
structure Path where
  /-- Empty for a path from the working directory. -/
  root : String
  names : List String
  deriving DecidableEq, Repr

namespace Path

/-- The parts of a text between slashes. -/
def splitSlashes : List Char → List (List Char)
  | [] => [[]]
  | c :: cs =>
    if c = '/' then [] :: splitSlashes cs
    else
      match splitSlashes cs with
      | [] => [[c]]
      | part :: parts => (c :: part) :: parts

/-- The root that a text starts with. -/
def rootOf : List Char → String
  | '/' :: '/' :: '/' :: _ => "/"
  | '/' :: '/' :: _ => "//"
  | '/' :: _ => "/"
  | _ => ""

/-- Read a path. -/
def ofString (s : String) : Path :=
  let parts := (splitSlashes s.toList).filter fun p => p ≠ [] && p ≠ ['.']
  ⟨rootOf s.toList, parts.map String.ofList⟩

/-- The names with slashes between. -/
def joinNames : List String → String
  | [] => ""
  | [n] => n
  | n :: m :: ns => n ++ "/" ++ joinNames (m :: ns)

/-- The text of a path. -/
def render (p : Path) : String :=
  if p.root = "" && p.names = [] then "." else p.root ++ joinNames p.names

/-- The path with a text behind its last name. -/
def extend (p : Path) (suffix : String) : Path :=
  match p.names.getLast? with
  | none => p
  | some n => { p with names := p.names.dropLast ++ [n ++ suffix] }

end Path

end LineScript
