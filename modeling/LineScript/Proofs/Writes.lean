-- SUMMARY: An environment is the map of the writes to it, in order of first writing.
import LineScript.Proofs.Composition

/-!
# Writes

A run writes into its environment by its bindings only, and a step of a session by the program that
it runs or by the name that it sets. A trace that ends a run leaves the writes that were made up to
there. So an environment is a table into which a history of writes was put: it has each written name
once, at the place of its first write and with the value of its last.
-/

namespace LineScript

/-! ## Tables -/

/-- The two names are one name of a table. -/
def Scalar.same (a b : Scalar) : Bool := a.key = b.key

theorem Scalar.same_comm (a b : Scalar) : a.same b = b.same a := by
  simp only [same, eq_comm]

namespace Table

variable {α : Type}

/-- The value that was written to a name last. -/
def lastWritten (writes : List (Scalar × α)) (name : Scalar) : Option α :=
  (writes.filter fun w => w.1.same name).getLast?.map Prod.snd

@[simp] theorem putAll_nil (t : Table α) : t.putAll [] = t := rfl

@[simp] theorem putAll_cons (t : Table α) (w : Scalar × α) (ws : List (Scalar × α)) :
    t.putAll (w :: ws) = (t.put w.1 w.2).putAll ws := rfl

theorem putAll_append (t : Table α) (ws us : List (Scalar × α)) :
    t.putAll (ws ++ us) = (t.putAll ws).putAll us :=
  List.foldl_append

theorem get?_congr (t : Table α) {a b : Scalar} (h : a.same b) : t.get? a = t.get? b := by
  simp only [get?, of_decide_eq_true h]

theorem get?_put (t : Table α) (name other : Scalar) (v : α) :
    (t.put name v).get? other = if name.same other then some v else t.get? other := by
  split
  · next h => rw [← get?_congr _ h, get?_put_self]
  · next h =>
    apply get?_put_of_ne
    simpa [Scalar.same, eq_comm] using h

@[simp] theorem names_empty : (empty : Table α).names = [] := rfl

@[simp] theorem contains_empty (name : Scalar) : (empty : Table α).contains name = false := rfl

theorem contains_put (t : Table α) (name other : Scalar) (v : α) :
    (t.put name v).contains other = (name.same other || t.contains other) := by
  simp only [contains, get?_put]
  split <;> simp_all

/-- A name that is put again keeps its place, and a new one goes to the end. -/
theorem names_put (t : Table α) (name : Scalar) (v : α) :
    (t.put name v).names = if t.contains name then t.names else t.names ++ [name] := by
  obtain ⟨entries⟩ := t
  simp only [names, put, contains, get?, Option.isSome_map]
  induction entries with
  | nil => rfl
  | cons e rest ih =>
    obtain ⟨k, w⟩ := e
    by_cases h : k.key = name.key
    · simp [putEntry, h]
    · simp only [putEntry, h, if_false, List.map_cons, ih, List.find?_cons, decide_false]
      split <;> rfl

theorem contains_iff (t : Table α) (name : Scalar) :
    t.contains name = true ↔ ∃ k ∈ t.names, k.key = name.key := by
  simp [contains, get?, names]

theorem lastWritten_cons (w : Scalar × α) (ws : List (Scalar × α)) (name : Scalar) :
    lastWritten (w :: ws) name =
      (lastWritten ws name).or (if w.1.same name then some w.2 else none) := by
  unfold lastWritten
  cases h : w.1.same name with
  | true =>
    simp only [List.filter_cons, h, if_true, List.getLast?_cons]
    cases (ws.filter fun w => w.1.same name).getLast? <;> rfl
  | false => simp [h]

/-- Behind writes a name has the value that was written to it last, or the one from before. -/
theorem get?_putAll (t : Table α) (ws : List (Scalar × α)) (name : Scalar) :
    (t.putAll ws).get? name = (lastWritten ws name).or (t.get? name) := by
  induction ws generalizing t with
  | nil => rfl
  | cons w ws ih =>
    rw [putAll_cons, ih, get?_put, lastWritten_cons, Option.or_assoc]
    split <;> rfl

/-- Behind writes the new names stand at the end, in order of their first write. -/
theorem names_putAll (t : Table α) (ws : List (Scalar × α)) :
    (t.putAll ws).names =
      t.names ++ ((ws.map Prod.fst).filter fun n => !t.contains n).eraseDupsBy Scalar.same := by
  induction ws generalizing t with
  | nil => simp
  | cons w ws ih =>
    rw [putAll_cons, ih, names_put, List.map_cons]
    cases h : t.contains w.1 with
    | true =>
      -- The name is there already, so the table has the same names as before.
      have hsame : ∀ n, (t.put w.1 w.2).contains n = t.contains n := by
        intro n
        rw [contains_put]
        cases hn : w.1.same n with
        | true => rw [contains, ← get?_congr t hn, ← contains, h, Bool.true_or]
        | false => rfl
      simp [h, hsame]
    | false =>
      have hnew : ∀ n, (!(t.put w.1 w.2).contains n) =
          (decide (n.same w.1 = false) && !t.contains n) := by
        intro n
        rw [contains_put, Scalar.same_comm]
        cases n.same w.1 <;> simp
      simp [h, hnew, List.eraseDupsBy_cons, List.filter_filter]

theorem distinct_put {t : Table α} (ht : t.names.Pairwise fun a b => a.key ≠ b.key) (name : Scalar)
    (v : α) : (t.put name v).names.Pairwise fun a b => a.key ≠ b.key := by
  rw [names_put]
  split
  · exact ht
  · next h =>
    rw [contains_iff] at h
    rw [List.pairwise_append]
    refine ⟨ht, List.pairwise_singleton _ _, ?_⟩
    intro k hk n hn
    rw [List.mem_singleton.mp hn]
    exact fun hkey => h ⟨k, hk, hkey⟩

theorem distinct_putAll {t : Table α} (ht : t.names.Pairwise fun a b => a.key ≠ b.key)
    (ws : List (Scalar × α)) : (t.putAll ws).names.Pairwise fun a b => a.key ≠ b.key := by
  induction ws generalizing t with
  | nil => exact ht
  | cons w ws ih => exact ih (distinct_put ht w.1 w.2)

theorem lastWritten_append (ws us : List (Scalar × α)) (name : Scalar) :
    lastWritten (ws ++ us) name = (lastWritten us name).or (lastWritten ws name) := by
  simp only [lastWritten, List.filter_append, List.getLast?_append, Option.map_or]

theorem isSome_lastWritten (ws : List (Scalar × α)) (name : Scalar) :
    (lastWritten ws name).isSome = true ↔ ∃ w ∈ ws, w.1.key = name.key := by
  simp [lastWritten, Scalar.same]

end Table

/-- The environment is the map of the writes: it has the written names and no other, each one once
    and in order of its first write, and a name has the value that was written to it last. -/
structure Env.Records (env : Env) (writes : List (Scalar × Value)) : Prop where
  distinct : env.names.Pairwise fun a b => a.key ≠ b.key
  size_eq : env.size = env.names.length
  names_eq : env.names = (writes.map Prod.fst).eraseDupsBy Scalar.same
  get?_eq : ∀ name, env.get? name = Table.lastWritten writes name
  read?_eq : ∀ name, env.read? name = (Table.lastWritten writes name).filter (· ≠ .null)
  contains_iff : ∀ name, env.contains name = true ↔ ∃ w ∈ writes, w.1.key = name.key

theorem Env.read?_eq_filter (env : Env) (name : Scalar) :
    env.read? name = (env.get? name).filter (· ≠ .null) := by
  unfold read?
  cases env.get? name with
  | none => rfl
  | some v => cases v <;> rfl

theorem Env.records_putAll (writes : List (Scalar × Value)) :
    Env.Records (Table.empty.putAll writes) writes := by
  have hget : ∀ name, (Table.empty.putAll writes).get? name = Table.lastWritten writes name := by
    intro name
    rw [Table.get?_putAll, Table.get?_empty, Option.or_none]
  refine ⟨Table.distinct_putAll .nil writes, ?_, ?_, hget, ?_, ?_⟩
  · exact List.length_map _ |>.symm
  · simp [Table.names_putAll]
  · intro name
    rw [Env.read?_eq_filter, hget]
  · intro name
    rw [Table.contains, hget, Table.isSome_lastWritten]

/-! ## Runs -/

theorem Outcome.writes_andThen {α β : Type} {o : Outcome α} {f : α → Outcome β}
    (ho : Event.writes o.events = []) (hf : ∀ a, Event.writes (f a).events = []) :
    Event.writes (o.andThen f).events = [] := by
  unfold andThen
  split
  · exact ho
  · next a _ => rw [Event.writes_append, ho, hf a, List.append_nil]

theorem Value.writes_print (v : Value) : Event.writes v.print.events = [] := by
  unfold print
  split <;> rfl

namespace Node

/-- The name that a statement binds, if it binds one. -/
def boundName? : Node → Option Scalar
  | .binding name _ => name.name?
  | _ => none

/-- The writes of statements: the name and the value of each binding that succeeds, up to the first
    statement that fails. -/
def writes (settings : Settings) (env : Env) : List Node → List (Scalar × Value)
  | [] => []
  | s :: ss =>
    match (s.exec settings env).result with
    | .error _ => []
    | .ok v =>
      (s.boundName?.map fun name => (name, v)).toList ++
        writes settings (s.exec settings env).env ss

/-- The writes of a program. -/
def runWrites (settings : Settings) (env : Env) : Node → List (Scalar × Value)
  | .program body => writes settings env body
  | _ => []

theorem exec_env_of_ok {settings : Settings} {env : Env} {s : Node} {v : Value}
    (h : (s.exec settings env).result = .ok v) :
    (s.exec settings env).env = env.putAll (s.boundName?.map fun name => (name, v)).toList := by
  cases s with
  | binding name expr =>
    simp only [exec] at h ⊢
    split at h
    · cases h
    · cases h
    · next hname =>
      cases h
      simp [boundName?, hname]
  | call name args =>
    simp only [exec] at h ⊢
    split at h <;> rfl
  | _ => rfl

/-- Statements put their writes into the environment and do nothing else to it. -/
theorem execAll_env (settings : Settings) (env : Env) (last : Value) (body : List Node) :
    (execAll settings env last body).env = env.putAll (writes settings env body) := by
  induction body generalizing env last with
  | nil => rfl
  | cons s ss ih =>
    simp only [execAll, writes]
    cases hr : (s.exec settings env).result with
    | error e => exact exec_env_of_error hr
    | ok v =>
      rw [Table.putAll_append, ← exec_env_of_ok hr]
      exact ih _ v

theorem exec_env (settings : Settings) (env : Env) (s : Node) :
    (s.exec settings env).env = env.putAll (writes settings env [s]) := by
  rw [← execAll_env settings env .undefined]
  simp only [execAll]
  split <;> rfl

theorem run_env (settings : Settings) (env : Env) (n : Node) :
    (n.run settings env).env = env.putAll (n.runWrites settings env) := by
  cases n with
  | program body => exact execAll_env settings env .undefined body
  | _ => rfl

/-! The events of a run show the same writes. -/

theorem writes_eval (dialect : Dialect) (env : Env) (n : Node) :
    Event.writes (n.eval dialect env).events = [] := by
  fun_induction eval dialect env n with
  | case2 name =>
    unfold Env.look
    split <;> rfl
  | case3 op operand ih => exact Outcome.writes_andThen ih fun _ => rfl
  | case4 op left right ihl ihr =>
    exact Outcome.writes_andThen ihl fun _ => Outcome.writes_andThen ihr fun _ => rfl
  | _ => rfl

theorem writes_printAll (dialect : Dialect) (env : Env) (args : List Node) :
    Event.writes (printAll dialect env args).events = [] := by
  induction args with
  | nil => rfl
  | cons arg args ih =>
    refine Outcome.writes_andThen (writes_eval dialect env arg) fun v => ?_
    exact Outcome.writes_andThen v.writes_print fun _ => ih

theorem writes_exec (settings : Settings) (env : Env) (s : Node) :
    Event.writes (s.exec settings env).events = writes settings env [s] := by
  simp only [writes, List.append_nil]
  cases s with
  | binding name expr =>
    simp only [exec, boundName?]
    split <;> simp_all [writes_eval]
  | call name args =>
    simp only [exec, boundName?]
    split
    · rfl
    · rw [writes_printAll]
      split <;> rfl
  | _ => rfl

theorem writes_execAll (settings : Settings) (env : Env) (last : Value) (body : List Node) :
    Event.writes (execAll settings env last body).events = writes settings env body := by
  induction body generalizing env last with
  | nil => rfl
  | cons s ss ih =>
    have hfirst := writes_exec settings env s
    simp only [execAll, writes, List.append_nil] at hfirst ⊢
    cases hr : (s.exec settings env).result with
    | error e =>
      rw [hr] at hfirst
      exact hfirst
    | ok v =>
      rw [hr] at hfirst
      simp only [Event.writes_append, Event.writes_finished_cons, ih, hfirst]

theorem writes_run (settings : Settings) (env : Env) (n : Node) :
    Event.writes (n.run settings env).events = n.runWrites settings env := by
  cases n with
  | program body => exact writes_execAll settings env .undefined body
  | _ => rfl

theorem writes_append {settings : Settings} {env : Env} {last v : Value} {ss : List Node}
    (h : (execAll settings env last ss).result = .ok v) (us : List Node) :
    writes settings env (ss ++ us) =
      writes settings env ss ++ writes settings (execAll settings env last ss).env us := by
  induction ss generalizing env last with
  | nil => rfl
  | cons s ss ih =>
    simp only [execAll] at h
    cases hr : (s.exec settings env).result with
    | error e =>
      rw [hr] at h
      cases hr.symm.trans h
    | ok w =>
      rw [hr] at h
      simp only [List.cons_append, writes, execAll, hr, ih h, List.append_assoc]

/-- A run that succeeds writes all the names that its statements bind. -/
theorem map_fst_writes {settings : Settings} {env : Env} {last v : Value} {body : List Node}
    (h : (execAll settings env last body).result = .ok v) :
    (writes settings env body).map Prod.fst = body.filterMap boundName? := by
  induction body generalizing env last with
  | nil => rfl
  | cons s ss ih =>
    simp only [execAll] at h
    cases hr : (s.exec settings env).result with
    | error e =>
      rw [hr] at h
      cases hr.symm.trans h
    | ok w =>
      rw [hr] at h
      simp only [writes, hr, List.map_append, ih h]
      cases hs : s.boundName? <;> simp [hs]

end Node

/-! Null enters an environment from outside only: no expression has it as its value. -/

theorem UnaryOp.apply_ne_null (op : UnaryOp) (v : Value) : op.apply v ≠ .ok .null := by
  cases op <;> cases v <;> simp [apply]

theorem BinaryOp.applyInt_ne_null (op : BinaryOp) (dialect : Dialect) (a b : Int) :
    op.applyInt dialect a b ≠ .ok .null := by
  cases op with
  | div =>
    simp only [applyInt]
    split <;> simp
  | mod =>
    simp only [applyInt]
    split <;> simp
  | le => cases dialect <;> simp [applyInt]
  | ge => cases dialect <;> simp [applyInt]
  | _ => simp [applyInt]

theorem BinaryOp.applyBool_ne_null (op : BinaryOp) (dialect : Dialect) (a b : Bool) :
    op.applyBool dialect a b ≠ .ok .null := by
  cases op with
  | xor => cases dialect <;> simp [applyBool]
  | _ => simp [applyBool]

theorem mapError_ne_null {r : Except Fault Value} (h : r ≠ .ok .null) :
    r.mapError RunError.fault ≠ .ok .null := by
  cases r with
  | error f => simp [Except.mapError]
  | ok v => simpa [Except.mapError] using h

theorem applyUnary_ne_null (op : Json) (v : Value) : applyUnary op v ≠ .ok .null := by
  unfold applyUnary
  split
  · next o _ => exact mapError_ne_null (o.apply_ne_null v)
  · simp

theorem applyBinary_ne_null (dialect : Dialect) (op : Json) (a b : Value) :
    applyBinary dialect op a b ≠ .ok .null := by
  unfold applyBinary
  split
  · split
    · next o _ => exact mapError_ne_null (o.applyInt_ne_null dialect _ _)
    · simp
  · split
    · next o _ => exact mapError_ne_null (o.applyBool_ne_null dialect _ _)
    · simp
  · simp

theorem Outcome.andThen_ne_null {o : Outcome Value} {f : Value → Outcome Value}
    (hf : ∀ v, (f v).result ≠ .ok .null) : (o.andThen f).result ≠ .ok .null := by
  unfold andThen
  split
  · simp
  · next v _ => exact hf v

theorem Env.look_ne_null (env : Env) (name : Json) : (env.look name).result ≠ .ok .null := by
  unfold look
  split
  · simp [Outcome.of]
  · next s _ =>
    rw [read?_eq_filter]
    cases env.get? s with
    | none => simp
    | some v => cases v <;> simp [Option.filter]

namespace Node

theorem eval_ne_null (dialect : Dialect) (env : Env) (n : Node) :
    (n.eval dialect env).result ≠ .ok .null := by
  fun_induction eval dialect env n with
  | case1 v => cases v <;> simp [Outcome.of, Literal.toValue]
  | case2 name => exact env.look_ne_null name
  | case3 op operand _ => exact Outcome.andThen_ne_null fun v => applyUnary_ne_null op v
  | case4 op left right _ _ =>
    exact Outcome.andThen_ne_null fun a =>
      Outcome.andThen_ne_null fun b => applyBinary_ne_null dialect op a b
  | _ => simp [Outcome.of]

theorem exec_ne_null {settings : Settings} {env : Env} {s : Node} {name : Scalar}
    (hs : s.boundName? = some name) : (s.exec settings env).result ≠ .ok .null := by
  cases s with
  | binding n expr =>
    simp only [exec]
    split
    · simp
    · simp
    · next hvalue _ =>
      rintro ⟨⟩
      exact eval_ne_null _ _ _ hvalue
  | _ => cases hs

/-- A binding that no later statement replaces is what its name reads as. -/
theorem read?_of_last_binding {settings : Settings} {before after : List Node} {s : Node}
    {name : Scalar} {v : Value}
    (h : ((program (before ++ s :: after)).run settings .empty).result = .ok v)
    (hs : s.boundName? = some name) (hlast : ∀ t ∈ after.filterMap boundName?, t.key ≠ name.key) :
    ∃ w, (s.exec settings ((program before).run settings .empty).env).result = .ok w ∧
      Env.read? ((program (before ++ s :: after)).run settings .empty).env name = some w := by
  obtain ⟨u, w, hbefore, hw, hafter⟩ := execAll_ok_at h
  refine ⟨w, hw, ?_⟩
  -- No name that is written behind the binding is the same.
  have hnone : Table.lastWritten (writes settings
      (s.exec settings (execAll settings .empty .undefined before).env).env after) name = none := by
    rw [← Option.not_isSome_iff_eq_none, Table.isSome_lastWritten]
    rintro ⟨x, hx, hkey⟩
    refine hlast x.1 ?_ hkey
    rw [← map_fst_writes hafter]
    exact List.mem_map_of_mem hx
  have hwritten : Table.lastWritten
      ((program (before ++ s :: after)).runWrites settings .empty) name = some w := by
    rw [runWrites, writes_append hbefore, Table.lastWritten_append]
    simp only [writes, hw, hs]
    simp [Table.lastWritten_cons, hnone, Scalar.same]
  have hne : w ≠ .null := fun hnull => exec_ne_null hs (hnull ▸ hw)
  rw [run_env, (Env.records_putAll _).read?_eq, hwritten]
  simp [Option.filter, hne]

end Node

/-! ## Runs under a trace -/

namespace Effect

/-- The writes of a run that began in the environment `start`, under a trace of the given level. -/
def writes (level : Int) (start : Env) (e : Effect) : List (Scalar × Value) :=
  Event.writes (e.watched level start).events

theorem env_watched {e : Effect} {start : Env} (h : e.env = start.putAll (Event.writes e.events))
    (level : Int) : (e.watched level start).env = start.putAll (e.writes level start) := by
  unfold writes watched
  split
  · exact h
  · rfl

/-- A trace that ends a run keeps the first of its writes. -/
theorem writes_isPrefix (level : Int) (start : Env) (e : Effect) :
    e.writes level start <+: Event.writes e.events := by
  unfold writes watched
  split
  · exact List.prefix_refl _
  · next seen hcut =>
    obtain ⟨rest, hevents⟩ := Event.exists_append_of_cut? hcut
    rw [hevents, Event.writes_append]
    exact List.prefix_append _ _

end Effect

namespace Node

theorem exec_env_events (settings : Settings) (env : Env) (s : Node) :
    (s.exec settings env).env = env.putAll (Event.writes (s.exec settings env).events) := by
  rw [exec_env, writes_exec]

theorem run_env_events (settings : Settings) (env : Env) (n : Node) :
    (n.run settings env).env = env.putAll (Event.writes (n.run settings env).events) := by
  rw [run_env, writes_run]

/-- A trace watches statements one by one: each in the environment that the statements before have
    left, and only if it could show all of these and that they are finished. -/
theorem watched_execAll_cons (level : Int) (settings : Settings) (env : Env) (last : Value)
    (s : Node) (ss : List Node) :
    (execAll settings env last (s :: ss)).watched level env =
      let first := (s.exec settings env).watched level env
      match first.result with
      | .error _ => first
      | .ok v =>
        if (Event.finished s.typeName v).stops level then
          ⟨first.events ++ [.finished s.typeName v], first.env, .error .overlong⟩
        else
          let rest := (execAll settings first.env v ss).watched level first.env
          ⟨first.events ++ .finished s.typeName v :: rest.events, rest.env, rest.result⟩ := by
  have henv := exec_env_events settings env s
  simp only [execAll, Effect.watched]
  cases hr : (s.exec settings env).result with
  | error e => cases Event.cut? level (s.exec settings env).events <;> simp [hr]
  | ok v =>
    cases hcut : Event.cut? level (s.exec settings env).events with
    | some seen => simp [Event.cut?_append, hcut]
    | none =>
      simp only [Event.cut?_append, hcut, Event.cut?, hr, Option.none_or]
      by_cases hstops : (Event.finished s.typeName v).stops level
      · simp [hstops, ← henv]
      · cases Event.cut? level (execAll settings (s.exec settings env).env v ss).events with
        | none => simp [hstops]
        | some seen => simp [hstops, Table.putAll_append, ← henv]

end Node

/-! ## Sessions -/

namespace Session

/-- The place of the environment that a scope names; lists and objects name none. -/
def place? (scope : Json) : Option (Option Scalar) :=
  if scope = .null then some none else scope.name?.map some

/-- The two places are of one environment. -/
def samePlace : Option Scalar → Option Scalar → Bool
  | none, none => true
  | some a, some b => a.same b
  | _, _ => false

/-- The scope names the environment at the place. -/
def isAt (scope : Json) (place : Option Scalar) : Bool := (place? scope).any (samePlace · place)

/-- The writes of a step to the environment at a place: those of the program that it runs there, or
    of the name that it sets there. -/
def Step.writes (s : Session) (place : Option Scalar) : Step → List (Scalar × Value)
  | .run source scope =>
    match Program.ofSource source with
    | .ok program =>
      if isAt scope place then
        (program.run s.settings (s.scope place)).writes s.level (s.scope place)
      else []
    | .error _ => []
  | .runTree tree scope =>
    match Node.ofJson tree with
    | .ok n =>
      if isAt scope place then (n.run s.settings (s.scope place)).writes s.level (s.scope place)
      else []
    | .error _ => []
  | .execute tree scope =>
    match Node.ofJson tree with
    | .ok n =>
      if isAt scope place then (n.exec s.settings (s.scope place)).writes s.level (s.scope place)
      else []
    | .error _ => []
  | .set name value scope =>
    match name.name? with
    | some n => if isAt scope place then [(n, value)] else []
    | none => []
  | _ => []

/-- The writes of a script to the environment at a place. -/
def writes (s : Session) (place : Option Scalar) : List Step → List (Scalar × Value)
  | [] => []
  | step :: steps => step.writes s place ++ (s.perform step).1.writes place steps

theorem scope_congr (s : Session) {p q : Option Scalar} (h : samePlace p q) :
    s.scope p = s.scope q := by
  cases p with
  | none =>
    cases q with
    | none => rfl
    | some b => cases h
  | some a =>
    cases q with
    | none => cases h
    | some b => simp only [scope, Table.get?_congr s.scopes h]

theorem scope_withScope (s : Session) (env : Env) (p q : Option Scalar) :
    (s.withScope env p).scope q = if samePlace p q then env else s.scope q := by
  cases p with
  | none => cases q <;> rfl
  | some a =>
    cases q with
    | none => rfl
    | some b =>
      simp only [scope, withScope, samePlace, Table.get?_put]
      split <;> simp_all

/-- A step puts writes into the environment that its scope names, seen from any place. -/
theorem scope_inScope (s : Session) (scope : Json) (place : Option Scalar)
    {k : Option Scalar → Session × Report} (ws : Env → List (Scalar × Value))
    (hk : ∀ p, (k p).1 = s.withScope ((s.scope p).putAll (ws (s.scope p))) p) :
    (s.inScope scope k).1.scope place =
      (s.scope place).putAll (if isAt scope place then ws (s.scope place) else []) := by
  have hplace : ∀ p, (k p).1.scope place =
      (s.scope place).putAll (if samePlace p place then ws (s.scope place) else []) := by
    intro p
    rw [hk, scope_withScope]
    cases h : samePlace p place with
    | true => simp [scope_congr s h]
    | false => simp
  simp only [inScope, isAt, place?]
  split
  · exact hplace none
  · simp only [withName]
    cases scope.name? with
    | none => rfl
    | some n => exact hplace (some n)

theorem inScope_idle {s : Session} {k : Option Scalar → Session × Report} (hk : ∀ p, (k p).1 = s)
    (scope : Json) : (s.inScope scope k).1 = s := by
  simp only [inScope, withName]
  split
  · exact hk none
  · split
    · exact hk _
    · rfl

/-- The steps that take a tree differ in what they do with it only. -/
theorem scope_onTree (s : Session) (tree scope : Json) (place : Option Scalar)
    (effect : Node → Env → Effect)
    (heffect : ∀ n env, (effect n env).env = env.putAll (Event.writes (effect n env).events)) :
    (s.inScope scope fun p => s.withTree tree fun n =>
        s.settle p [] (effect n (s.scope p))).1.scope place =
      (s.scope place).putAll
        (match Node.ofJson tree with
        | .ok n =>
          if isAt scope place then (effect n (s.scope place)).writes s.level (s.scope place) else []
        | .error _ => []) := by
  unfold withTree
  cases Node.ofJson tree with
  | error e => simp [inScope_idle, refuse]
  | ok n =>
    apply scope_inScope s scope place fun env => (effect n env).writes s.level env
    intro p
    simp only [settle, Effect.env_watched (heffect n (s.scope p))]

/-- The steps that only ask about a name leave the session as it was. -/
theorem onName_idle (s : Session) (name scope : Json) (answer : Option Scalar → Scalar → Answer) :
    (s.inScope scope fun p => s.withName name fun n => s.reply (answer p n)).1 = s := by
  apply inScope_idle
  intro p
  unfold withName
  split <;> rfl

theorem scope_withBuiltin (s : Session) (name : Json) (place : Option Scalar)
    {k : Scalar → Builtin → Session × Report} (hk : ∀ n b, (k n b).1.scope place = s.scope place) :
    (s.withBuiltin name k).1.scope place = s.scope place := by
  simp only [withBuiltin, withName]
  split
  · split
    · exact hk _ _
    · rfl
  · rfl

/-- A step puts its writes into the environments and does nothing else to them. -/
theorem scope_perform (s : Session) (step : Step) (place : Option Scalar) :
    (s.perform step).1.scope place = (s.scope place).putAll (step.writes s place) := by
  have hbuiltins : ∀ builtins, (s.withBuiltins builtins).scope place = s.scope place := by
    intro builtins
    cases place <;> rfl
  cases step with
  | run source scope =>
    simp only [perform, Step.writes]
    cases Program.ofSource source with
    | error e => simp [inScope_idle]
    | ok program =>
      apply scope_inScope s scope place fun env => (program.run s.settings env).writes s.level env
      intro p
      simp only [settle, Effect.env_watched (program.run_env_events s.settings (s.scope p))]
  | runTree tree scope =>
    exact scope_onTree s tree scope place (fun n env => n.run s.settings env)
      fun n env => n.run_env_events s.settings env
  | execute tree scope =>
    exact scope_onTree s tree scope place (fun n env => n.exec s.settings env)
      fun n env => n.exec_env_events s.settings env
  | evaluate tree scope =>
    have hnone := fun n env => Node.writes_eval s.settings.dialect env n
    refine (scope_onTree s tree scope place (fun n env =>
      ⟨(n.eval s.settings.dialect env).events, env, (n.eval s.settings.dialect env).result⟩)
      fun n env => by rw [hnone, Table.putAll_nil]).trans ?_
    cases Node.ofJson tree with
    | error e => rfl
    | ok n =>
      have hwrites := (Effect.writes_isPrefix s.level (s.scope place)
        ⟨(n.eval s.settings.dialect (s.scope place)).events, s.scope place,
          (n.eval s.settings.dialect (s.scope place)).result⟩)
      rw [hnone, List.prefix_nil] at hwrites
      simp [Step.writes, hwrites]
  | get name scope => exact congrArg (Session.scope · place) (onName_idle s name scope _)
  | has name scope => exact congrArg (Session.scope · place) (onName_idle s name scope _)
  | names scope =>
    have hidle : (s.perform (.names scope)).1 = s := by
      apply inScope_idle
      intro p
      rfl
    rw [hidle]
    rfl
  | set name value scope =>
    simp only [perform, Step.writes, withName]
    cases name.name? with
    | none => simp [inScope_idle, refuse]
    | some n =>
      apply scope_inScope s scope place fun _ => [(n, value)]
      intro p
      rfl
  | «alias» name existing =>
    apply scope_withBuiltin
    intro _ b
    unfold withName
    split
    · exact hbuiltins _
    · rfl
  | drop name => exact scope_withBuiltin s name place fun _ _ => hbuiltins _
  | builtins =>
    simp only [perform]
    split <;> rfl
  | note text =>
    have hquiet : (if 0 < s.level then s.refuse .notAText else s.reply .done).1 = s := by
      split <;> rfl
    have hidle : (s.perform (.note text)).1 = s := by
      cases text with
      | scalar v =>
        cases v with
        | text t => rfl
        | _ => exact hquiet
      | _ => exact hquiet
    rw [hidle]
    rfl
  | close => cases place <;> rfl
  | _ => rfl

theorem scope_performAll (s : Session) (steps : List Step) (place : Option Scalar) :
    (s.performAll steps).1.scope place = (s.scope place).putAll (s.writes place steps) := by
  induction steps generalizing s with
  | nil => rfl
  | cons step steps ih =>
    rw [writes, Table.putAll_append, ← scope_perform, ← ih]
    rfl

theorem scope_new (level : Int) (dialect : Dialect) (place : Option Scalar) :
    (new level dialect).scope place = .empty := by
  cases place <;> rfl

/-- Along every session each environment is the map of the writes to it, whatever was run in it and
    set in it from outside and whichever of the runs failed. The writes of a run are the bindings
    that succeed in front of the first failing statement, or the first of these if the trace ends
    the run. And behind a program that succeeds in an empty environment the names are those that its
    statements bind, without the repetitions, and each one reads as the value of the last binding of
    it. -/
theorem environments_record_writes (level : Int) (dialect : Dialect) :
    (∀ steps place, Env.Records (((new level dialect).performAll steps).1.scope place)
      ((new level dialect).writes place steps)) ∧
    (∀ (n : Node) settings env,
      (n.run settings env).writes level env <+: n.runWrites settings env ∧
      ((∀ e ∈ (n.run settings env).events, e.stops level = false) →
        (n.run settings env).writes level env = n.runWrites settings env)) ∧
    ∀ settings body v,
      (((Node.program body).run settings .empty).watched level .empty).result = .ok v →
      (((Node.program body).run settings .empty).watched level .empty).env.names =
          (body.filterMap Node.boundName?).eraseDupsBy Scalar.same ∧
      ∀ before s after name, body = before ++ s :: after → s.boundName? = some name →
        (∀ t ∈ after.filterMap Node.boundName?, t.key ≠ name.key) →
        ∃ w, (s.exec settings ((Node.program before).run settings .empty).env).result = .ok w ∧
          Env.read? (((Node.program body).run settings .empty).watched level .empty).env name =
            some w := by
  refine ⟨?_, ?_, ?_⟩
  · intro steps place
    rw [scope_performAll, scope_new]
    exact Env.records_putAll _
  · intro n settings env
    rw [← n.writes_run]
    refine ⟨Effect.writes_isPrefix level env _, fun hshown => ?_⟩
    rw [Effect.writes, Effect.watched_eq_self hshown]
  · intro settings body v hok
    rw [Effect.watched_of_ok hok]
    rw [Effect.watched_of_ok hok] at hok
    constructor
    · rw [Node.run_env, (Env.records_putAll _).names_eq, Node.runWrites, Node.map_fst_writes hok]
    · rintro before s after name rfl hs hlast
      exact Node.read?_of_last_binding hok hs hlast

/-- A run that fails between two bindings, a name that is set to null, and a rebinding; and a
    program that binds a name twice. -/
theorem environments_record_writes_rebinding :
    (((new 0 .legacy).performAll [.run "a = 1\nb = a / 0\nc = 2".toList .null,
        .set (.text "c") .null .null, .run "d = c\na = true".toList .null]).1.scope none).names =
      [.text "a", .text "c", .text "d"] ∧
    ((Node.program [.ofBinding "x" (.literal (.int 1)), .ofBinding "y" (.ofName "x"),
        .ofBinding "x" (.ofBinary .add (.ofName "x") (.ofName "y")), .ofPrint [.ofName "x"]]).run
      (.new .legacy) .empty).env.read? (.text "x") = some (.int 2) := by
  obtain ⟨hsession, -, hrun⟩ := environments_record_writes 0 .legacy
  constructor
  · rw [(hsession _ none).names_eq]
    decide +kernel
  · obtain ⟨w, hw, hread⟩ := (hrun (.new .legacy) _ .undefined (by decide)).2
      [.ofBinding "x" (.literal (.int 1)), .ofBinding "y" (.ofName "x")]
      (.ofBinding "x" (.ofBinary .add (.ofName "x") (.ofName "y"))) [.ofPrint [.ofName "x"]]
      (.text "x") rfl rfl (List.forall_mem_nil _)
    have hw : .ok (.int 2) = Except.ok w := hw
    exact hread.trans (congrArg some (Except.ok.inj hw).symm)

end Session

end LineScript
