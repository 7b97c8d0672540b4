-- SUMMARY: A print of several values is as good as several prints of one value.
import LineScript.Proofs.Composition

/-!
# Printing

A print evaluates its arguments one by one and writes the line of each before it evaluates the next.
So it does what prints of its single arguments do one after the other: the same lines come out, also
when an argument in the middle fails, since evaluation changes no binding.
-/

namespace LineScript

/-! ## What a run shows -/

namespace Effect

/-- What a run shows apart from its trace: its output, its bindings and its result. -/
def shown (e : Effect) : String × Env × Except RunError Value :=
  (Event.outputOf e.events, e.env, e.result)

theorem shown_andThen {e e' : Effect} {next next' : Env → Value → Effect} (h : e.shown = e'.shown)
    (hnext : ∀ env v, (next env v).shown = (next' env v).shown) :
    (e.andThen next).shown = (e'.andThen next').shown := by
  obtain ⟨houtput, henv, hresult⟩ : Event.outputOf e.events = Event.outputOf e'.events ∧
      e.env = e'.env ∧ e.result = e'.result := by
    simpa only [shown, Prod.mk.injEq] using h
  cases hr : e'.result with
  | error err => rw [andThen_of_error (hresult.trans hr), andThen_of_error hr, h]
  | ok v =>
    have hrest := hnext e'.env v
    simp only [shown, Prod.mk.injEq] at hrest
    rw [andThen_of_ok (hresult.trans hr), andThen_of_ok hr]
    simp [shown, henv, houtput, hrest]

end Effect

namespace Node

variable (settings : Settings) (env : Env)

/-- To finish a statement shows in the trace only. -/
theorem shown_execAll_cons (last : Value) (s : Node) (ss : List Node) :
    (execAll settings env last (s :: ss)).shown =
      ((s.exec settings env).andThen fun env v => execAll settings env v ss).shown := by
  simp only [execAll, Effect.andThen]
  cases (s.exec settings env).result <;> simp [Effect.shown, Event.output]

theorem shown_execAll_singleton (last : Value) (s : Node) :
    (execAll settings env last [s]).shown = (s.exec settings env).shown := by
  rw [shown_execAll_cons]
  cases hr : (s.exec settings env).result with
  | error e => rw [Effect.andThen_of_error hr]
  | ok v => simp [Effect.andThen_of_ok hr, execAll, Effect.shown, hr]

/-! ## Prints -/

/-- A print of a value and more values is a print of the one, and then a print of the others. -/
theorem shown_exec_print_cons (arg : Node) (args : List Node) :
    ((ofPrint (arg :: args)).exec settings env).shown =
      (((ofPrint [arg]).exec settings env).andThen fun env _ =>
        (ofPrint args).exec settings env).shown := by
  simp only [ofPrint, exec]
  cases settings.builtin (.text "print") with
  | error e => rfl
  | ok b =>
    simp only [printAll, Outcome.andThen, Effect.andThen]
    cases (arg.eval settings.dialect env).result with
    | error e => rfl
    | ok v =>
      cases hprint : v.print.result <;> simp [hprint, Effect.shown, Outcome.of]

theorem shown_execAll_prints (last : Value) (arg : Node) (args : List Node) :
    (execAll settings env last ((arg :: args).map fun a => ofPrint [a])).shown =
      ((ofPrint (arg :: args)).exec settings env).shown := by
  induction args generalizing env last arg with
  | nil => exact shown_execAll_singleton settings env last _
  | cons b args ih =>
    rw [List.map_cons, shown_execAll_cons, shown_exec_print_cons]
    exact Effect.shown_andThen rfl fun env v => ih env v b

/-- The statements that a statement is split into: a print of values is split into prints of one
    value each, and all else stays one statement. -/
def split : Node → List Node
  | .call name args =>
    if name = .text "print" ∧ args ≠ [] then args.map fun arg => ofPrint [arg]
    else [.call name args]
  | s => [s]

/-- The program with its statements split. -/
def splitPrints : Node → Node
  | .program body => .program (body.flatMap split)
  | n => n

theorem shown_execAll_split (last : Value) (s : Node) :
    (execAll settings env last s.split).shown = (s.exec settings env).shown := by
  cases s with
  | call name args =>
    rw [split]
    split
    · next h =>
      obtain ⟨rfl, hargs⟩ := h
      obtain ⟨arg, rest, rfl⟩ := List.exists_cons_of_ne_nil hargs
      exact shown_execAll_prints settings env last arg rest
    · exact shown_execAll_singleton settings env last _
  | _ => exact shown_execAll_singleton settings env last _

theorem shown_execAll_flatMap_split (last : Value) (body : List Node) :
    (execAll settings env last (body.flatMap split)).shown =
      (execAll settings env last body).shown := by
  induction body generalizing env last with
  | nil => rfl
  | cons s ss ih =>
    rw [List.flatMap_cons, execAll_append, shown_execAll_cons]
    exact Effect.shown_andThen (shown_execAll_split settings env last s) ih

/-! ## Output -/

variable {settings env}

/-- A print that succeeds has evaluated all of its arguments, to values that can be written. -/
theorem exists_evaluated {dialect : Dialect} {args : List Node} {v : Value}
    (h : (printAll dialect env args).result = .ok v) :
    ∃ values, List.Forall₂ (fun arg w => (eval dialect env arg).result = .ok w) args values ∧
      ∀ w ∈ values, w.Legible := by
  induction args with
  | nil => exact ⟨[], .nil, List.forall_mem_nil _⟩
  | cons arg args ih =>
    simp only [printAll, Outcome.andThen] at h
    cases hr : (arg.eval dialect env).result with
    | error e =>
      rw [hr] at h
      cases h
    | ok w =>
      rw [hr] at h
      by_cases hlegible : w.Legible
      · simp only [Value.print_of_legible hlegible] at h
        obtain ⟨values, hvalues, hrest⟩ := ih h
        exact ⟨w :: values, .cons hr hvalues, List.forall_mem_cons.mpr ⟨hlegible, hrest⟩⟩
      · simp only [Value.print_of_not_legible hlegible] at h
        cases h

theorem exists_printed {dialect : Dialect} {args : List Node} {v : Value}
    (h : (printAll dialect env args).result = .ok v) :
    ∃ values, List.Forall₂ (fun arg w => (eval dialect env arg).result = .ok w) args values ∧
      Event.outputOf (printAll dialect env args).events = linesOf values := by
  obtain ⟨values, hvalues, hlegible⟩ := exists_evaluated h
  exact ⟨values, hvalues, outputOf_printAll hvalues hlegible⟩

theorem exec_print_of_ok {args : List Node} {v : Value}
    (h : ((ofPrint args).exec settings env).result = .ok v) :
    ((ofPrint args).exec settings env).env = env ∧
      ∃ values,
        List.Forall₂ (fun arg w => (eval settings.dialect env arg).result = .ok w) args values ∧
        Event.outputOf ((ofPrint args).exec settings env).events = linesOf values := by
  simp only [ofPrint, exec] at h ⊢
  split at h
  · cases h
  · exact ⟨rfl, exists_printed h⟩

/-- What is written by a run is what is written up to a print in it, by the print and behind it. -/
theorem outputOf_run_at {before after args : List Node} {v : Value}
    (h : ((program (before ++ ofPrint args :: after)).run settings env).result = .ok v) :
    ∃ w, ((ofPrint args).exec settings ((program before).run settings env).env).result = .ok w ∧
      Event.outputOf ((program (before ++ ofPrint args :: after)).run settings env).events =
        Event.outputOf ((program before).run settings env).events ++
          Event.outputOf ((ofPrint args).exec settings
            ((program before).run settings env).env).events ++
          Event.outputOf ((program after).run settings
            ((program before).run settings env).env).events := by
  obtain ⟨u, w, hbefore, hprint, -⟩ := execAll_ok_at h
  refine ⟨w, hprint, ?_⟩
  have hlast : ∀ env', (execAll settings env' w after).events =
      (execAll settings env' .undefined after).events := by
    intro env'
    cases after <;> rfl
  simp only [run, execAll_append, Effect.andThen_of_ok hbefore, execAll, hprint,
    (exec_print_of_ok hprint).1, hlast]
  simp [Event.output, String.append_assoc]

/-- Splitting the prints of a program changes nothing but the trace: the output, the bindings and
    the value or the failure are the same. And each print of a run that succeeds writes the values
    of its arguments in order, each on a line, between what is written in front of it and behind. -/
theorem splitting_prints_preserves_meaning (settings : Settings) (env : Env) (n : Node) :
    (Event.outputOf (n.splitPrints.run settings env).events =
        Event.outputOf (n.run settings env).events ∧
      (n.splitPrints.run settings env).env = (n.run settings env).env ∧
      (n.splitPrints.run settings env).result = (n.run settings env).result) ∧
    ∀ before args after v, n = program (before ++ ofPrint args :: after) →
      (n.run settings env).result = .ok v →
      ∃ values,
        List.Forall₂ (fun arg w => (arg.eval settings.dialect
          ((program before).run settings env).env).result = .ok w) args values ∧
        Event.outputOf ((ofPrint args).exec settings
          ((program before).run settings env).env).events = linesOf values ∧
        Event.outputOf (n.run settings env).events =
          Event.outputOf ((program before).run settings env).events ++ linesOf values ++
            Event.outputOf ((program after).run settings
              ((program before).run settings env).env).events := by
  constructor
  · have hshown : (n.splitPrints.run settings env).shown = (n.run settings env).shown := by
      cases n with
      | program body => exact shown_execAll_flatMap_split settings env .undefined body
      | _ => rfl
    simpa only [Effect.shown, Prod.mk.injEq] using hshown
  · rintro before args after v rfl hok
    obtain ⟨w, hprint, houtput⟩ := outputOf_run_at hok
    obtain ⟨-, values, hvalues, hlines⟩ := exec_print_of_ok hprint
    refine ⟨values, hvalues, hlines, ?_⟩
    rw [houtput, hlines]

/-- A print that fails at its second argument, split; and a print of three values behind a binding
    of one of them. -/
theorem splitting_prints_preserves_meaning_at_fault :
    Event.outputOf ((program [.ofPrint [.literal (.int 1)],
        .ofPrint [.ofBinary .mod (.literal (.int 1)) (.literal (.int 0))],
        .ofPrint [.literal (.int 2)]]).run (.new .legacy) .empty).events =
      Event.outputOf ((program [.ofPrint [.literal (.int 1),
        .ofBinary .mod (.literal (.int 1)) (.literal (.int 0)), .literal (.int 2)]]).run
          (.new .legacy) .empty).events ∧
    Event.outputOf ((program [.ofBinding "x" (.literal (.bool true)),
        .ofPrint [.ofName "x", .ofName "y", .literal (.int (-7))]]).run (.new .legacy)
          .empty).events = "true\nundefined\n-7\n" := by
  constructor
  · exact (splitting_prints_preserves_meaning (.new .legacy) .empty (program [.ofPrint
      [.literal (.int 1), .ofBinary .mod (.literal (.int 1)) (.literal (.int 0)),
        .literal (.int 2)]])).1.1
  · obtain ⟨values, hvalues, -, houtput⟩ :=
      (splitting_prints_preserves_meaning (.new .legacy) .empty _).2
        [.ofBinding "x" (.literal (.bool true))] [.ofName "x", .ofName "y", .literal (.int (-7))]
        [] .undefined rfl (by decide)
    obtain _ | ⟨hx, _ | ⟨hy, _ | ⟨hz, ⟨⟩⟩⟩⟩ := hvalues
    cases hx
    cases hy
    cases hz
    exact houtput

end Node

end LineScript
