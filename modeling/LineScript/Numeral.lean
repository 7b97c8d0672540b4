-- SUMMARY: Integers in decimal notation: writing them, and reading them leniently.
import LineScript.Text.Blank
import LineScript.Text.Digit

/-!
# Numerals

Integers are written in plain decimal notation, and those of more than `maxDigits` digits are not
written at all. They are read leniently: white space around the numeral, one sign, digits of any
script, and single underscores between digits are accepted. A numeral of more than `maxDigits`
digits is never read, leading zeros included.
-/

namespace LineScript.Numeral

/-- The longest run of digits that is turned into a number, or that a number is turned into. -/
def maxDigits : Nat := 4300

/-! ## Writing -/

/-- The decimal digits of a natural number. -/
def natChars (n : Nat) : List Char := Nat.toDigits 10 n

/-- An integer in decimal notation. -/
def chars : Int → List Char
  | .ofNat n => natChars n
  | .negSucc n => '-' :: natChars (n + 1)

/-- An integer in decimal notation. -/
def render (n : Int) : String := String.ofList (chars n)

/-- The integer has few enough digits to be written; a sign does not count. -/
def Legible (n : Int) : Prop := (natChars n.natAbs).length ≤ maxDigits

instance (n : Int) : Decidable (Legible n) := inferInstanceAs (Decidable (_ ≤ _))

/-! ## Reading -/

/-- White space that may surround a numeral: all but the information separators. -/
def isPadding (c : Char) : Bool :=
  Text.isBlank c && !(0x1C ≤ c.toNat && c.toNat ≤ 0x1F)

/-- The values of a run of digits in which single underscores may stand between two digits. -/
def digits? : List Char → Option (List Nat)
  | [] => none
  | [c] => (Text.digitValue? c).map fun d => [d]
  | c :: '_' :: cs => do
    let d ← Text.digitValue? c
    let ds ← digits? cs
    return d :: ds
  | c :: c' :: cs => do
    let d ← Text.digitValue? c
    let ds ← digits? (c' :: cs)
    return d :: ds

/-- The number that a run of digits denotes, unless the run is too long. -/
def natural? (cs : List Char) : Option Nat := do
  let ds ← digits? cs
  if ds.length ≤ maxDigits then
    return ds.foldl (fun n d => 10 * n + d) 0
  else
    none

/-- Read a numeral. -/
def read? (s : String) : Option Int :=
  match Text.trimBoth isPadding s.toList with
  | '+' :: cs => (natural? cs).map Int.ofNat
  | '-' :: cs => (natural? cs).map fun n => -Int.ofNat n
  | cs => (natural? cs).map Int.ofNat

end LineScript.Numeral
