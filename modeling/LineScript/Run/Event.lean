-- SUMMARY: What a run leaves behind, in order: printed text and the events that a trace shows.
import LineScript.Env
import LineScript.Parse.Program

/-!
# Events

Everything that a run shows to the outside is an event, and the output and the trace are two views
of one list of events. The trace of level one shows finished statements, level two also bindings and
look-ups, level three also the steps of the parser; notes made from outside show at every level
above zero. An event with an integer that is too long to be written has no line: a trace that should
show it stops there.
-/

namespace LineScript

/-- Something that a run shows to the outside. -/
inductive Event where
  | printed (text : String)
  /-- A name was read; no value if it is not bound. -/
  | looked (name : Scalar) (value : Option Value)
  | bound (name : Scalar) (value : Value)
  /-- A statement of the named kind is finished. -/
  | finished (kind : String) (value : Value)
  | parsed (note : Program.Note)
  | noted (text : String)
  deriving DecidableEq, Repr

namespace Event

/-- The text that an event puts out. -/
def output : Event → String
  | .printed text => text
  | _ => ""

/-- The least level at which a trace shows the event. -/
def level? : Event → Option Int
  | .printed _ => none
  | .looked .. | .bound .. => some 2
  | .finished .. => some 1
  | .parsed _ => some 3
  | .noted _ => some 1

/-- The line of a trace that shows the event. -/
def text : Event → String
  | .printed text => text
  | .looked name value =>
    "lookup " ++ (Json.scalar name).display ++ ": " ++ (value.map Value.render).getD "unbound"
  | .bound name value =>
    "bind " ++ (Json.scalar name).display ++ ": " ++ value.type.name ++ " = " ++ value.render
  | .finished kind value => kind ++ " -> " ++ value.render
  | .parsed note => note.text
  | .noted text => text

/-- The event can be written: every name and value in it can. -/
def Legible : Event → Prop
  | .looked name value => name.Legible ∧ ∀ v ∈ value, v.Legible
  | .bound name value => name.Legible ∧ value.Legible
  | .finished _ value => value.Legible
  | .printed _ | .parsed _ | .noted _ => True

instance : DecidablePred Legible
  | .looked name value => inferInstanceAs (Decidable (name.Legible ∧ ∀ v ∈ value, v.Legible))
  | .bound name value => inferInstanceAs (Decidable (name.Legible ∧ value.Legible))
  | .finished _ value => inferInstanceAs (Decidable value.Legible)
  | .printed _ | .parsed _ | .noted _ => .isTrue trivial

/-- The trace of the given level is to show the event. -/
def shownAt (level : Int) (e : Event) : Bool :=
  match e.level? with
  | some least => least ≤ level
  | none => false

/-- The trace of the given level shows the event on a line of its own. -/
def writtenAt (level : Int) (e : Event) : Bool := e.shownAt level && e.Legible

/-- The trace of the given level is to show the event and cannot. -/
def stops (level : Int) (e : Event) : Bool := e.shownAt level && !e.Legible

/-- The events up to the first that stops a trace of the given level, if one of them does. That one
    has happened as well. -/
def cut? (level : Int) : List Event → Option (List Event)
  | [] => none
  | e :: es => if e.stops level then some [e] else (cut? level es).map (e :: ·)

/-- The bindings that events make, in order. -/
def writes (events : List Event) : List (Scalar × Value) :=
  events.filterMap fun
    | .bound name value => some (name, value)
    | _ => none

/-- The output that events put out. -/
def outputOf (events : List Event) : String := String.join (events.map output)

@[simp] theorem outputOf_nil : outputOf [] = "" := String.join_nil

@[simp] theorem outputOf_cons (e : Event) (es : List Event) :
    outputOf (e :: es) = e.output ++ outputOf es := String.join_cons

@[simp] theorem outputOf_append (es fs : List Event) :
    outputOf (es ++ fs) = outputOf es ++ outputOf fs := by
  simp only [outputOf, List.map_append, String.join_append]

/-- The trace of events at the given level. -/
def traceOf (level : Int) (events : List Event) : String :=
  String.join ((events.filter (writtenAt level)).map fun e => e.text ++ "\n")

end Event

end LineScript
