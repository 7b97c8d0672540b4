-- SUMMARY: The command line: which words are switches, values and operands, and what they ask for.
import LineScript.Text.Digit

/-!
# Arguments

Long switches may be shortened as long as one switch is meant, and take their value behind `=` or as
the next word. The short switches `-h` and `-v` may be joined, also with a `=` behind the first one;
a letter among them that is no switch is a misuse at once. Other words that look like negative
numbers or hold a blank are operands, and behind `--` all words are. One operand is accepted;
further words and unknown ones are a misuse, but only once all switches have had their say.
-/

namespace LineScript.Cli

/-- The switches. -/
inductive Switch where
  | help
  | version
  | verbose
  | legacy
  | emit
  | stored
  deriving DecidableEq, Repr

/-- The switch takes a value. -/
def Switch.takesValue : Switch → Bool
  | emit | stored => true
  | help | version | verbose | legacy => false

/-- The short switches. -/
def shortSwitch? : Char → Option Switch
  | 'h' => some .help
  | 'v' => some .verbose
  | _ => none

/-- The long switches. -/
def longSwitches : List (String × Switch) :=
  [("--help", .help), ("--version", .version), ("--legacy-operators", .legacy),
   ("--emit-ast", .emit), ("--ast", .stored)]

/-! ## Words -/

/-- What a word of the command line is. -/
inductive Word where
  | operand (text : String)
  /-- The word `--`. -/
  | divider
  /-- A switch, with the value behind `=` if there is one. -/
  | switch (switch : Switch) (value : Option String)
  /-- A short switch with letters behind it that should be short switches too. -/
  | joined (first : Switch) (letters : List Char)
  | unknown
  | ambiguous
  deriving DecidableEq, Repr

/-- A negative number, with or without a fraction. -/
def isNegativeNumber (cs : List Char) : Bool :=
  let isDigit := fun c => (Text.digitValue? c).isSome
  let cs := if cs.getLast? = some '\n' then cs.dropLast else cs
  match cs with
  | '-' :: rest =>
    match rest.dropWhile isDigit with
    | [] => !rest.isEmpty
    | '.' :: fraction => !fraction.isEmpty && fraction.all isDigit
    | _ => false
  | _ => false

/-- The text before the first `=`, and the value behind it. The divider is no value, not even there:
    it leaves the value empty. -/
def splitValue (cs : List Char) : List Char × Option String :=
  match cs.dropWhile (· ≠ '=') with
  | [] => (cs, none)
  | _ :: value =>
    (cs.takeWhile (· ≠ '='), some (if value = ['-', '-'] then "" else String.ofList value))

/-- The long switches that a text is the start of. -/
def longMatches (start : List Char) : List Switch :=
  match longSwitches.lookup (String.ofList start) with
  | some s => [s]
  | none => (longSwitches.filter fun e => start.isPrefixOf e.1.toList).map Prod.snd

/-- A word that starts with a dash and is no switch. -/
def Word.other (cs : List Char) : Word :=
  if isNegativeNumber cs || cs.contains ' ' then .operand (String.ofList cs) else .unknown

/-- What a word is that stands in front of any `--`. -/
def Word.of (s : String) : Word :=
  match s.toList with
  | '-' :: '-' :: cs =>
    let (start, value) := splitValue ('-' :: '-' :: cs)
    match longMatches start with
    | [] => .other ('-' :: '-' :: cs)
    | [sw] => .switch sw value
    | _ => .ambiguous
  | '-' :: c :: cs =>
    match shortSwitch? c, cs with
    | some sw, [] => .switch sw none
    | some sw, '=' :: d :: letters => .joined sw (d :: letters)
    | some sw, letters => .joined sw letters
    | none, _ => .other ('-' :: c :: cs)
  | _ => .operand s

/-- The words of the command line. -/
def words : List String → List Word
  | [] => []
  | s :: rest => if s = "--" then .divider :: rest.map Word.operand else Word.of s :: words rest

/-! ## Meaning -/

/-- What the command line asks for. -/
structure Arguments where
  verbosity : Nat
  legacy : Bool
  emit : Option String
  stored : Option String
  program : Option String
  /-- There were words that mean nothing. -/
  surplus : Bool
  deriving DecidableEq, Repr

/-- A command line without words. -/
def Arguments.none : Arguments := ⟨0, false, .none, .none, .none, false⟩

/-- How the command line is answered. -/
inductive Usage where
  | help
  | version
  | misuse
  | proceed (arguments : Arguments)
  deriving DecidableEq, Repr

/-- The switches that letters stand for, if each of them is one. -/
def shortSwitches? : List Char → Option (List Switch)
  | [] => some []
  | c :: cs =>
    match shortSwitch? c, shortSwitches? cs with
    | some sw, some switches => some (sw :: switches)
    | _, _ => none

/-- Apply switches without a value in order; help and version end the reading. -/
def applyFlags (a : Arguments) : List Switch → Except Usage Arguments
  | [] => .ok a
  | .help :: _ => .error .help
  | .version :: _ => .error .version
  | .verbose :: rest => applyFlags { a with verbosity := a.verbosity + 1 } rest
  | .legacy :: rest => applyFlags { a with legacy := true } rest
  | .emit :: _ | .stored :: _ => .error .misuse

/-- Apply a switch with its value; the two switches that take one exclude each other. -/
def applyValue (a : Arguments) (switch : Switch) (value : String) : Except Usage Arguments :=
  match switch with
  | .emit => if a.stored.isSome then .error .misuse else .ok { a with emit := some value }
  | .stored => if a.emit.isSome then .error .misuse else .ok { a with stored := some value }
  | _ => .error .misuse

/-- Apply words in order. -/
def applyWords (a : Arguments) : List Word → Usage
  | [] => if a.surplus then .misuse else .proceed a
  | .operand s :: .divider :: rest =>
    if a.program.isNone then applyWords { a with program := some s } rest
    else applyWords { a with surplus := true } rest
  | .operand s :: rest =>
    if a.program.isNone then applyWords { a with program := some s } rest
    else applyWords { a with surplus := true } rest
  | .divider :: rest =>
    if a.program.isNone then applyWords a rest else applyWords { a with surplus := true } rest
  | .switch s (some value) :: rest =>
    match applyValue a s value with
    | .ok a => applyWords a rest
    | .error usage => usage
  | .switch s .none :: .operand value :: rest =>
    if s.takesValue then
      match applyValue a s value with
      | .ok a => applyWords a rest
      | .error usage => usage
    else
      match applyFlags a [s] with
      | .ok a => applyWords a (.operand value :: rest)
      | .error usage => usage
  | .switch s .none :: rest =>
    match applyFlags a [s] with
    | .ok a => applyWords a rest
    | .error usage => usage
  | .joined s letters :: rest =>
    match shortSwitches? letters with
    | none => .misuse
    | some switches =>
      match applyFlags a (s :: switches) with
      | .ok a => applyWords a rest
      | .error usage => usage
  | .unknown :: rest => applyWords { a with surplus := true } rest
  | .ambiguous :: _ => .misuse

/-- Read the command line. An ambiguous word is a misuse whatever stands before it. -/
def Usage.of (args : List String) : Usage :=
  let ws := words args
  if ws.contains .ambiguous then .misuse else applyWords .none ws

end LineScript.Cli
