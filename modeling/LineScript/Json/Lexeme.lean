-- SUMMARY: The lexemes of JSON text, read by a machine that takes one character at a time.
import LineScript.Json

/-!
# Lexemes of JSON text

JSON text is brackets, commas, colons, strings, and words, a word being a run of the characters
that numbers and literals are made of. Reading is total: text that is no lexeme gives the lexeme
`malformed` in its place, and an integer too long to be read gives `oversized`.
-/

namespace LineScript.Json

/-- A lexeme of JSON text. -/
inductive Lexeme where
  | openList
  | closeList
  | openObject
  | closeObject
  | comma
  | colon
  | scalar (value : Scalar)
  | oversized
  | malformed
  deriving DecidableEq, Repr

/-! ## Words -/

/-- The character can be part of a number or a literal. -/
def isWordChar (c : Char) : Bool :=
  c.isAlphanum || c = '+' || c = '-' || c = '.'

/-- The digits behind a decimal point, and what follows them. -/
def takeFraction : List Char → List Char × List Char
  | '.' :: cs =>
    match cs.takeWhile Char.isDigit with
    | [] => ([], '.' :: cs)
    | ds => (ds, cs.dropWhile Char.isDigit)
  | cs => ([], cs)

/-- The exponent of a number, and what follows it. -/
def takeExponent (cs : List Char) : Option Int × List Char :=
  match cs with
  | 'e' :: rest | 'E' :: rest =>
    let (negative, digits) :=
      match rest with
      | '-' :: ds => (true, ds)
      | '+' :: ds => (false, ds)
      | ds => (false, ds)
    match digits.takeWhile Char.isDigit with
    | [] => (none, cs)
    | ds =>
      let n : Int := Text.digitsValue ds
      (some (if negative then -n else n), digits.dropWhile Char.isDigit)
  | _ => (none, cs)

/-- The digits in front of the point: a lone zero, or a run that does not start with zero. -/
def wholeDigits : List Char → List Char
  | '0' :: _ => ['0']
  | cs => cs.takeWhile Char.isDigit

/-- The lexeme that starts with a number; anything behind the number spoils it. -/
def Lexeme.ofNumber (negative : Bool) (cs : List Char) : Lexeme :=
  let whole := wholeDigits cs
  let (fraction, rest) := takeFraction (cs.drop whole.length)
  let (power, rest) := takeExponent rest
  if whole.isEmpty then
    .malformed
  else if fraction.isEmpty && power.isNone then
    if Numeral.maxDigits < whole.length then .oversized
    else if rest.isEmpty then
      let n : Int := Text.digitsValue whole
      .scalar (.int (if negative then -n else n))
    else .malformed
  else if rest.isEmpty then
    .scalar (.real (.ofDecimal negative (Text.digitsValue (whole ++ fraction))
      (power.getD 0 - fraction.length)))
  else
    .malformed

/-- The lexeme that a word is. -/
def Lexeme.ofWord (cs : List Char) : Lexeme :=
  if cs = "null".toList then .scalar .null
  else if cs = "true".toList then .scalar (.bool true)
  else if cs = "false".toList then .scalar (.bool false)
  else if cs = "NaN".toList then .scalar (.real .nan)
  else if cs = "Infinity".toList then .scalar (.real (.infinite false))
  else if cs = "-Infinity".toList then .scalar (.real (.infinite true))
  else
    match cs with
    | '-' :: digits => .ofNumber true digits
    | digits => .ofNumber false digits

/-! ## Strings -/

/-- The value of a hexadecimal digit of either case. -/
def hexValue? (c : Char) : Option Nat :=
  if c.isDigit then some (c.toNat - '0'.toNat)
  else if 'a' ≤ c && c ≤ 'f' then some (c.toNat - 'a'.toNat + 10)
  else if 'A' ≤ c && c ≤ 'F' then some (c.toNat - 'A'.toNat + 10)
  else none

/-- The character that a letter behind a backslash stands for. -/
def unescape? : Char → Option Char
  | '"' => some '"'
  | '\\' => some '\\'
  | '/' => some '/'
  | 'b' => some '\x08'
  | 'f' => some '\x0c'
  | 'n' => some '\n'
  | 'r' => some '\r'
  | 't' => some '\t'
  | _ => none

/-- The first half of a surrogate pair. -/
def isHighSurrogate (u : Nat) : Bool := 0xD800 ≤ u && u ≤ 0xDBFF

/-- The second half of a surrogate pair. -/
def isLowSurrogate (u : Nat) : Bool := 0xDC00 ≤ u && u ≤ 0xDFFF

/-- The character of a code unit; a surrogate without its partner is replaced. -/
def charOfUnit (u : Nat) : Char :=
  if isHighSurrogate u || isLowSurrogate u then '\ufffd' else Char.ofNat u

/-- The text of a run of code units, surrogate pairs joined. -/
def joinUnits : List Nat → List Char
  | [] => []
  | [u] => [charOfUnit u]
  | u :: v :: us =>
    if isHighSurrogate u && isLowSurrogate v then
      Char.ofNat (0x10000 + (u - 0xD800) * 0x400 + (v - 0xDC00)) :: joinUnits us
    else
      charOfUnit u :: joinUnits (v :: us)

/-! ## The machine -/

/-- What has been read of the lexeme that is not yet complete; runs are kept last item first. -/
inductive Partial where
  | between
  | word (seen : List Char)
  | string (units : List Nat)
  | escape (units : List Nat)
  | hex (units : List Nat) (missing value : Nat)
  deriving DecidableEq, Repr

/-- A character that starts a lexeme, or stands between two. -/
def Partial.start (c : Char) : List Lexeme × Partial :=
  if c = ' ' || c = '\t' || c = '\n' || c = '\r' then ([], .between)
  else if c = '[' then ([.openList], .between)
  else if c = ']' then ([.closeList], .between)
  else if c = '\x7b' then ([.openObject], .between)
  else if c = '\x7d' then ([.closeObject], .between)
  else if c = ',' then ([.comma], .between)
  else if c = ':' then ([.colon], .between)
  else if c = '"' then ([], .string [])
  else if isWordChar c then ([], .word [c])
  else ([.malformed], .between)

/-- The lexemes completed by one more character, and what is incomplete after it. -/
def Partial.step (p : Partial) (c : Char) : List Lexeme × Partial :=
  match p with
  | .between => Partial.start c
  | .word seen =>
    if isWordChar c then ([], .word (c :: seen))
    else
      let (lexemes, next) := Partial.start c
      (.ofWord seen.reverse :: lexemes, next)
  | .string units =>
    if c = '"' then ([.scalar (.text (String.ofList (joinUnits units.reverse)))], .between)
    else if c = '\\' then ([], .escape units)
    else if c.toNat < 0x20 then ([.malformed], .between)
    else ([], .string (c.toNat :: units))
  | .escape units =>
    if c = 'u' then ([], .hex units 4 0)
    else
      match unescape? c with
      | some d => ([], .string (d.toNat :: units))
      | none => ([.malformed], .between)
  | .hex units missing value =>
    match hexValue? c with
    | some d =>
      if missing ≤ 1 then ([], .string ((16 * value + d) :: units))
      else ([], .hex units (missing - 1) (16 * value + d))
    | none => ([.malformed], .between)

/-- The lexemes completed by the end of the text. -/
def Partial.finish : Partial → List Lexeme
  | .between => []
  | .word seen => [.ofWord seen.reverse]
  | .string _ | .escape _ | .hex .. => [.malformed]

/-- The lexemes of a text, after what has been read of the first. -/
def lexemesFrom (p : Partial) : List Char → List Lexeme
  | [] => p.finish
  | c :: cs => (p.step c).1 ++ lexemesFrom (p.step c).2 cs

/-- The lexemes of a text. -/
def lexemes (cs : List Char) : List Lexeme := lexemesFrom .between cs

end LineScript.Json
