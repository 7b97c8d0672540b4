-- SUMMARY: Line ends: one form for all of them, and the cut of a text into lines.

/-!
# Line ends

Files are read with every line end, `\r\n` and a lone `\r` included, taken as one `\n`. Once
read, a line ends at `\n` only.
-/

namespace LineScript.Text

/-- The text with `\r\n` and lone `\r` turned into `\n`. -/
def unifyNewlines : List Char → List Char
  | [] => []
  | '\r' :: '\n' :: cs => '\n' :: unifyNewlines cs
  | c :: cs => (if c = '\r' then '\n' else c) :: unifyNewlines cs

/-- The lines of a text, each with the newline that ends it; only the last may lack one. -/
def splitLines : List Char → List (List Char)
  | [] => []
  | c :: cs =>
    if c = '\n' then [c] :: splitLines cs
    else
      match splitLines cs with
      | [] => [[c]]
      | line :: lines => (c :: line) :: lines

theorem flatten_splitLines (cs : List Char) : (splitLines cs).flatten = cs := by
  induction cs with
  | nil => rfl
  | cons c cs ih =>
    unfold splitLines
    split
    · simp [ih]
    · split <;> simp_all

end LineScript.Text
