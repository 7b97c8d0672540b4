-- SUMMARY: Runs under a trace, which end where the trace cannot be written.
import LineScript.Run.Exec

/-!
# Runs under a trace

A trace is written while a run goes on, and it shows an event as soon as the event has happened. An
event that it is to show and that has no line ends the run there: what has happened up to that event
stays, the event included, and nothing else happens. So the same run can come to its end under a
trace of one level and not under a trace of another.
-/

namespace LineScript

/-- The outcome under a trace of the given level. -/
def Outcome.watched {α : Type} (level : Int) (o : Outcome α) : Outcome α :=
  match Event.cut? level o.events with
  | none => o
  | some events => ⟨events, .error .overlong⟩

/-- What a run that began in the environment `start` leaves behind under a trace of the given
    level. If the trace ends the run, the bindings that were made up to there are kept. -/
def Effect.watched (level : Int) (start : Env) (e : Effect) : Effect :=
  match Event.cut? level e.events with
  | none => e
  | some events => ⟨events, start.putAll (Event.writes events), .error .overlong⟩

end LineScript
