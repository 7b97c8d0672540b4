-- SUMMARY: Where a trace ends a run, and when it does not.
import LineScript.Run.Watch

/-!
# Watched runs

A trace ends a run at the first event that it is to show and cannot write. So a run goes on under a
trace as long as its events are legible, and a run in parts is watched part by part: each part under
the trace, and the next one only if the trace did not end the run before.
-/

namespace LineScript

namespace Event

/-! ## Events that a trace cannot write -/

theorem shownAt_of_nonpos {level : Int} (h : level ≤ 0) (e : Event) : e.shownAt level = false := by
  cases e <;> simp [shownAt, level?] <;> omega

theorem stops_of_nonpos {level : Int} (h : level ≤ 0) (e : Event) : e.stops level = false := by
  rw [stops, shownAt_of_nonpos h, Bool.false_and]

theorem Legible.stops {e : Event} (h : e.Legible) (level : Int) : e.stops level = false := by
  simp [Event.stops, h]

theorem cut?_eq_none {level : Int} {es : List Event} (h : ∀ e ∈ es, e.stops level = false) :
    cut? level es = none := by
  induction es with
  | nil => rfl
  | cons e es ih =>
    rw [List.forall_mem_cons] at h
    simp [cut?, h.1, ih h.2]

theorem cut?_append (level : Int) (es fs : List Event) :
    cut? level (es ++ fs) = (cut? level es).or ((cut? level fs).map (es ++ ·)) := by
  induction es with
  | nil => simp [cut?]
  | cons e es ih =>
    rw [List.cons_append, cut?, cut?, ih]
    split
    · rfl
    · cases cut? level es <;> simp [Function.comp_def]

/-- A run that is cut has begun like the whole run. -/
theorem exists_append_of_cut? {level : Int} {es seen : List Event} (h : cut? level es = some seen) :
    ∃ rest, es = seen ++ rest := by
  induction es generalizing seen with
  | nil => cases h
  | cons e es ih =>
    rw [cut?] at h
    split at h
    · cases h
      exact ⟨es, rfl⟩
    · obtain ⟨front, hfront, rfl⟩ := Option.map_eq_some_iff.mp h
      obtain ⟨rest, rfl⟩ := ih hfront
      exact ⟨rest, rfl⟩

/-! ## Bindings that events make -/

@[simp] theorem writes_nil : writes [] = [] := rfl

@[simp] theorem writes_append (es fs : List Event) : writes (es ++ fs) = writes es ++ writes fs :=
  List.filterMap_append

@[simp] theorem writes_bound (name : Scalar) (value : Value) :
    writes [.bound name value] = [(name, value)] := rfl

@[simp] theorem writes_finished_cons (kind : String) (value : Value) (es : List Event) :
    writes (.finished kind value :: es) = writes es := rfl

end Event

/-! ## Outcomes -/

namespace Outcome

variable {α β : Type} {level : Int}

theorem watched_eq_self {o : Outcome α} (h : ∀ e ∈ o.events, e.stops level = false) :
    o.watched level = o := by
  rw [watched, Event.cut?_eq_none h]

end Outcome

/-! ## Effects -/

namespace Effect

variable {level : Int} {start : Env}

theorem watched_eq_self {e : Effect} (h : ∀ event ∈ e.events, event.stops level = false) :
    e.watched level start = e := by
  rw [watched, Event.cut?_eq_none h]

theorem watched_of_nonpos (h : level ≤ 0) (e : Effect) : e.watched level start = e :=
  watched_eq_self fun event _ => Event.stops_of_nonpos h event

theorem watched_of_legible {e : Effect} (h : ∀ event ∈ e.events, event.Legible) (level : Int)
    (start : Env) : e.watched level start = e :=
  watched_eq_self fun event hevent => (h event hevent).stops level

/-- A run that succeeds under a trace is the run without one. -/
theorem watched_of_ok {e : Effect} {v : Value} (h : (e.watched level start).result = .ok v) :
    e.watched level start = e := by
  unfold watched at h ⊢
  split at h
  · rfl
  · cases h

end Effect

end LineScript
