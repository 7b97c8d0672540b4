-- SUMMARY: Runs compose, and a run that fails stops at one statement and leaves what came before it.
import LineScript.Proofs.Interaction

/-!
# Composition of runs

Two lists of statements behind each other run as the first and then, if that succeeded, the second.
So a run that fails is a run of the statements before the failing one, followed by what that
statement printed before it failed: nothing, unless it is a print.
-/

namespace LineScript

/-! ## Runs one after another -/

/-- Go on from where a run ended, if it succeeded. -/
def Effect.andThen (first : Effect) (next : Env → Value → Effect) : Effect :=
  match first.result with
  | .error _ => first
  | .ok v =>
    let second := next first.env v
    ⟨first.events ++ second.events, second.env, second.result⟩

theorem Effect.andThen_of_ok {first : Effect} {v : Value} (h : first.result = .ok v)
    (next : Env → Value → Effect) :
    first.andThen next = ⟨first.events ++ (next first.env v).events, (next first.env v).env,
      (next first.env v).result⟩ := by
  simp only [andThen, h]

theorem Effect.andThen_of_error {first : Effect} {e : RunError} (h : first.result = .error e)
    (next : Env → Value → Effect) : first.andThen next = first := by
  simp only [andThen, h]

namespace Node

variable {settings : Settings} {env : Env}

theorem execAll_append (settings : Settings) (env : Env) (last : Value) (ss us : List Node) :
    execAll settings env last (ss ++ us) =
      (execAll settings env last ss).andThen fun env v => execAll settings env v us := by
  induction ss generalizing env last with
  | nil => rfl
  | cons s ss ih =>
    simp only [List.cons_append, execAll]
    cases hr : (s.exec settings env).result with
    | error e => exact (Effect.andThen_of_error hr _).symm
    | ok v =>
      simp only [ih]
      cases hrest : (execAll settings (s.exec settings env).env v ss).result with
      | error e => simp only [Effect.andThen, hrest]
      | ok w => simp only [Effect.andThen, hrest, List.append_assoc, List.cons_append]

/-- Statements do not depend on the value of the statement before them. -/
theorem execAll_last {ss : List Node} (hss : ss ≠ []) (v w : Value) :
    execAll settings env v ss = execAll settings env w ss := by
  cases ss with
  | nil => exact absurd rfl hss
  | cons s ss => rfl

/-- A run that succeeds does so up to each of its statements, at it and behind it. -/
theorem execAll_ok_at {last v : Value} {before after : List Node} {s : Node}
    (h : (execAll settings env last (before ++ s :: after)).result = .ok v) :
    ∃ u w, (execAll settings env last before).result = .ok u ∧
      (s.exec settings (execAll settings env last before).env).result = .ok w ∧
      (execAll settings (s.exec settings (execAll settings env last before).env).env w
        after).result = .ok v := by
  rw [execAll_append] at h
  cases hbefore : (execAll settings env last before).result with
  | error e =>
    rw [Effect.andThen_of_error hbefore, hbefore] at h
    cases h
  | ok u =>
    rw [Effect.andThen_of_ok hbefore, execAll] at h
    cases hs : (s.exec settings (execAll settings env last before).env).result with
    | error e =>
      rw [hs] at h
      cases hs.symm.trans h
    | ok w =>
      rw [hs] at h
      exact ⟨u, w, rfl, rfl, h⟩

/-! ## The failing statement -/

/-- A run that fails has a first statement that fails. -/
theorem exists_failing {last : Value} {ss : List Node} {e : RunError}
    (h : (execAll settings env last ss).result = .error e) :
    ∃ before s after v, ss = before ++ s :: after ∧
      (execAll settings env last before).result = .ok v ∧
      (s.exec settings (execAll settings env last before).env).result = .error e := by
  induction ss generalizing env last with
  | nil => cases h
  | cons s ss ih =>
    simp only [execAll] at h
    cases hr : (s.exec settings env).result with
    | error e' =>
      rw [hr] at h
      obtain rfl : e' = e := Except.error.inj (hr.symm.trans h)
      exact ⟨[], s, ss, last, rfl, rfl, hr⟩
    | ok w =>
      rw [hr] at h
      obtain ⟨before, t, after, v, rfl, hbefore, ht⟩ := ih h
      refine ⟨s :: before, t, after, v, rfl, ?_, ?_⟩
      · simpa only [execAll, hr] using hbefore
      · simpa only [execAll, hr] using ht

/-- What is left behind by statements of which one fails: nothing behind it is executed. -/
theorem execAll_of_failing {last v : Value} {before : List Node} {s : Node} {e : RunError}
    (after : List Node) (hbefore : (execAll settings env last before).result = .ok v)
    (hs : (s.exec settings (execAll settings env last before).env).result = .error e) :
    execAll settings env last (before ++ s :: after) =
      ⟨(execAll settings env last before).events ++
          (s.exec settings (execAll settings env last before).env).events,
        (execAll settings env last before).env, .error e⟩ := by
  have htail : execAll settings (execAll settings env last before).env v (s :: after) =
      s.exec settings (execAll settings env last before).env := by
    simp only [execAll, hs]
  rw [execAll_append, Effect.andThen_of_ok hbefore, htail, exec_env_of_error hs, hs]

/-- The statement of number `k` fails with the error, in the environment that the statements before
    it leave, and these run to their end. -/
def FailsAt (settings : Settings) (env : Env) (ss : List Node) (e : RunError) (k : Nat) : Prop :=
  ∃ s v, ss[k]? = some s ∧ ((program (ss.take k)).run settings env).result = .ok v ∧
    (s.exec settings ((program (ss.take k)).run settings env).env).result = .error e

theorem FailsAt.split {ss : List Node} {e : RunError} {k : Nat} (h : FailsAt settings env ss e k) :
    ∃ s after v, ss = ss.take k ++ s :: after ∧ (ss.take k).length = k ∧
      (execAll settings env .undefined (ss.take k)).result = .ok v ∧
      (s.exec settings (execAll settings env .undefined (ss.take k)).env).result = .error e := by
  obtain ⟨s, v, hs, hbefore, hfails⟩ := h
  obtain ⟨hk, rfl⟩ := List.getElem?_eq_some_iff.mp hs
  refine ⟨ss[k], ss.drop (k + 1), v, ?_, List.length_take_of_le hk.le, hbefore, hfails⟩
  rw [List.getElem_cons_drop, List.take_append_drop]

/-- No statement behind a failing one is reached, so there is one failing statement only. -/
theorem FailsAt.not_lt {ss : List Node} {e e' : RunError} {j k : Nat}
    (hj : FailsAt settings env ss e j) (hk : FailsAt settings env ss e' k) : ¬ j < k := by
  intro hlt
  obtain ⟨s, after, v, hsplit, hlength, hbefore, hs⟩ := hj.split
  obtain ⟨_, _, w, _, _, hok, _⟩ := hk.split
  have htake : ss.take k = ss.take j ++ s :: after.take (k - j - 1) := by
    conv_lhs => rw [hsplit]
    rw [List.take_append, hlength, List.take_of_length_le (by omega),
      show k - j = (k - j - 1) + 1 by omega, List.take_succ_cons]
    simp
  rw [htake, execAll_of_failing _ hbefore hs] at hok
  cases hok

theorem FailsAt.unique {ss : List Node} {e e' : RunError} {j k : Nat}
    (hj : FailsAt settings env ss e j) (hk : FailsAt settings env ss e' k) : j = k :=
  Nat.le_antisymm (Nat.le_of_not_lt (hk.not_lt hj)) (Nat.le_of_not_lt (hj.not_lt hk))

/-! ## Output -/

theorem outputOf_andThen {α β : Type} {o : Outcome α} {f : α → Outcome β}
    (ho : Event.outputOf o.events = "") (hf : ∀ a, Event.outputOf (f a).events = "") :
    Event.outputOf (o.andThen f).events = "" := by
  unfold Outcome.andThen
  split
  · exact ho
  · next a _ => simp [ho, hf a]

/-- Evaluation prints nothing. -/
theorem outputOf_eval (dialect : Dialect) (env : Env) (n : Node) :
    Event.outputOf (n.eval dialect env).events = "" := by
  fun_induction eval dialect env n with
  | case2 name =>
    unfold Env.look
    split <;> rfl
  | case3 op operand ih => exact outputOf_andThen ih fun _ => rfl
  | case4 op left right ihl ihr =>
    exact outputOf_andThen ihl fun _ => outputOf_andThen ihr fun _ => rfl
  | _ => rfl

/-- The values are those of the first arguments, and the argument behind these fails. -/
structure FirstFailing (dialect : Dialect) (env : Env) (args : List Node) (e : RunError)
    (values : List Value) : Prop where
  before : List.Forall₂ (fun arg v => (eval dialect env arg).result = .ok v)
    (args.take values.length) values
  failing : ∃ arg, args[values.length]? = some arg ∧ (eval dialect env arg).result = .error e

/-- The lines that a print writes for values. -/
def linesOf (values : List Value) : String := String.join (values.map fun v => v.render ++ "\n")

/-- Arguments whose values can be written are printed on a line each. -/
theorem outputOf_printAll {dialect : Dialect} {args : List Node} {values : List Value}
    (h : List.Forall₂ (fun arg v => (eval dialect env arg).result = .ok v) args values)
    (hlegible : ∀ v ∈ values, v.Legible) :
    Event.outputOf (printAll dialect env args).events = linesOf values := by
  induction h with
  | nil => rfl
  | cons harg _ ih =>
    rw [List.forall_mem_cons] at hlegible
    simp [printAll, Outcome.andThen, harg, Value.print_of_legible hlegible.1, outputOf_eval,
      ih hlegible.2, Event.output, linesOf]

/-- A print that commits a fault has written the values of the arguments before the first that
    fails. -/
theorem exists_firstFailing {dialect : Dialect} {args : List Node} {fault : Fault}
    (h : (printAll dialect env args).result = .error (.fault fault)) :
    ∃ values, FirstFailing dialect env args (.fault fault) values ∧
      Event.outputOf (printAll dialect env args).events = linesOf values := by
  induction args with
  | nil => cases h
  | cons arg args ih =>
    simp only [printAll, Outcome.andThen] at h ⊢
    cases hr : (arg.eval dialect env).result with
    | error e =>
      rw [hr] at h
      obtain rfl : e = .fault fault := Except.error.inj h
      exact ⟨[], ⟨.nil, arg, rfl, hr⟩, outputOf_eval dialect env arg⟩
    | ok v =>
      by_cases hlegible : v.Legible
      · simp only [hr, Value.print_of_legible hlegible] at h ⊢
        obtain ⟨values, ⟨hbefore, hfailing⟩, houtput⟩ := ih h
        refine ⟨v :: values, ⟨.cons hr hbefore, hfailing⟩, ?_⟩
        simp [outputOf_eval, houtput, Event.output, linesOf]
      · simp only [hr, Value.print_of_not_legible hlegible] at h
        cases h

/-- The node is a call of the builtin that prints. -/
def IsPrint (settings : Settings) (n : Node) : Prop :=
  ∃ name args, n = .call name args ∧ settings.builtin name = .ok .print

/-- A statement that fails and is no print has printed nothing. -/
theorem outputOf_exec_of_error {n : Node} {e : RunError} (hn : ¬ n.IsPrint settings)
    (h : (n.exec settings env).result = .error e) :
    Event.outputOf (n.exec settings env).events = "" := by
  cases n with
  | binding name expr =>
    have hquiet := outputOf_eval settings.dialect env expr
    simp only [exec] at h ⊢
    split at h
    · exact hquiet
    · exact hquiet
    · cases h
  | call name args =>
    simp only [exec]
    split
    · rfl
    · next hprint => exact absurd ⟨name, args, rfl, hprint⟩ hn
  | _ => rfl

/-! ## Runs -/

/-- What is left behind by a run that fails at the statement of number `k`: the bindings and the
    output of the statements before it, and if it is a print, also its first lines. -/
structure StopsAt (settings : Settings) (env : Env) (ss : List Node) (e : RunError) (k : Nat) :
    Prop where
  fails : FailsAt settings env ss e k
  env_eq : ((program ss).run settings env).env = ((program (ss.take k)).run settings env).env
  print : ∀ name args, ss[k]? = some (.call name args) → settings.builtin name = .ok .print →
    ∃ values, FirstFailing settings.dialect ((program ss).run settings env).env args e values ∧
      Event.outputOf ((program ss).run settings env).events =
        Event.outputOf ((program (ss.take k)).run settings env).events ++ linesOf values
  silent : (∀ s, ss[k]? = some s → ¬ s.IsPrint settings) →
    Event.outputOf ((program ss).run settings env).events =
      Event.outputOf ((program (ss.take k)).run settings env).events

theorem exists_stopsAt {ss : List Node} {fault : Fault}
    (h : ((program ss).run settings env).result = .error (.fault fault)) :
    ∃ k, StopsAt settings env ss (.fault fault) k := by
  obtain ⟨before, s, after, v, rfl, hbefore, hs⟩ := exists_failing h
  have htake : (before ++ s :: after).take before.length = before := List.take_left
  have hget : (before ++ s :: after)[before.length]? = some s := by simp
  have hrun : (program (before ++ s :: after)).run settings env = _ :=
    execAll_of_failing after hbefore hs
  refine ⟨before.length, ⟨s, v, hget, ?_, ?_⟩, ?_, ?_, ?_⟩
  · rw [htake]
    exact hbefore
  · rw [htake]
    exact hs
  · rw [hrun, htake]
    rfl
  · intro name args hcall hprint
    obtain rfl : s = .call name args := Option.some.inj (hget.symm.trans hcall)
    simp only [exec, hprint] at hs hrun
    obtain ⟨values, hvalues, houtput⟩ := exists_firstFailing hs
    rw [hrun, htake]
    refine ⟨values, hvalues, ?_⟩
    rw [Event.outputOf_append, houtput]
    rfl
  · intro hnot
    rw [hrun, htake, Event.outputOf_append, outputOf_exec_of_error (hnot s hget) hs,
      String.append_empty]
    rfl

/-- A run that commits a fault stops at exactly one statement, which leaves nothing behind but the
    lines that it printed before it failed; a call of no builtin leaves nothing at all. And two lists
    of statements run one behind the other as they run one after the other. -/
theorem run_stops_atomically_and_composes (settings : Settings) (env : Env) :
    (∀ ss fault, ((program ss).run settings env).result = .error (.fault fault) →
      ∃ k, StopsAt settings env ss (.fault fault) k ∧
        ∀ j, FailsAt settings env ss (.fault fault) j → j = k) ∧
    (∀ name s args, name.name? = some s → settings.builtins.get? s = none →
      (call name args).exec settings env = ⟨[], env, .error (.fault (.unknownMethod name))⟩) ∧
    ∀ ss us, (program (ss ++ us)).run settings env =
      ((program ss).run settings env).andThen fun env' v =>
        { (program us).run settings env' with
          result := if us = [] then .ok v else ((program us).run settings env').result } := by
  refine ⟨?_, ?_, ?_⟩
  · intro ss fault h
    obtain ⟨k, hk⟩ := exists_stopsAt h
    exact ⟨k, hk, fun j hj => hj.unique hk.fails⟩
  · intro name s args hname hget
    simp only [exec, Settings.builtin, hname, hget]
  · intro ss us
    simp only [run, execAll_append]
    congr 1
    funext env' v
    by_cases hus : us = []
    · simp [hus, execAll]
    · rw [if_neg hus]
      exact execAll_last hus v .undefined

/-- A rebinding, a print that fails at its third argument, and a binding that is never reached; and
    a call by a name that no builtin has. -/
theorem run_stops_at_third_argument :
    (∃ k, StopsAt (.new .legacy) (Table.empty.put (.text "x") (.int 1))
        [.ofBinding "x" (.literal (.int 6)),
          .ofPrint [.ofName "x", .ofName "y", .ofBinary .mod (.ofName "x") (.literal (.int 0))],
          .ofBinding "y" (.literal (.bool true))] (.fault (.divisionByZero .mod)) k ∧
      ∀ j, FailsAt (.new .legacy) (Table.empty.put (.text "x") (.int 1))
        [.ofBinding "x" (.literal (.int 6)),
          .ofPrint [.ofName "x", .ofName "y", .ofBinary .mod (.ofName "x") (.literal (.int 0))],
          .ofBinding "y" (.literal (.bool true))] (.fault (.divisionByZero .mod)) j → j = k) ∧
    ((call (.text "show") [.ofName "x"]).exec (.new .legacy) .empty).events = [] := by
  refine ⟨(run_stops_atomically_and_composes _ _).1 _ _ (by decide), ?_⟩
  rw [(run_stops_atomically_and_composes _ _).2.1 _ (.text "show") _ rfl (by decide)]

end Node

end LineScript
