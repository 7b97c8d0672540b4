-- SUMMARY: A program depends on the names that it reads only, and changes those that it binds only.
import LineScript.Proofs.Writes

/-!
# Dependence

Two environments in which the identifiers of a program read alike are the same to it: statement by
statement it prints, binds and fails the same in both, so the reading stays alike, also of names
that it binds on the way. What it does not bind stays as it was, and evaluation binds nothing.
-/

namespace LineScript

/-! ## Reading -/

/-- The value that a name has in an expression: a name without one is undefined. -/
def Env.valueOf (env : Env) (name : Scalar) : Value := (env.read? name).getD .undefined

/-- The names read alike in the two environments. -/
def Env.ReadAlike (names : List Scalar) (env env' : Env) : Prop :=
  ∀ name ∈ names, env.valueOf name = env'.valueOf name

instance (names : List Scalar) (env env' : Env) : Decidable (Env.ReadAlike names env env') :=
  inferInstanceAs (Decidable (∀ name ∈ names, _))

theorem Env.result_look (env : Env) (name : Scalar) :
    (env.look (.scalar name)).result = .ok (env.valueOf name) := rfl

theorem Env.valueOf_put (env : Env) (name other : Scalar) (v : Value) :
    Env.valueOf (env.put name v) other =
      if name.same other then ((some v).filter (· ≠ .null)).getD .undefined
      else env.valueOf other := by
  rw [valueOf, read?_eq_filter, Table.get?_put]
  split
  · rfl
  · rw [valueOf, read?_eq_filter]

theorem Env.ReadAlike.putAll {names : List Scalar} {env env' : Env}
    (h : Env.ReadAlike names env env') (ws : List (Scalar × Value)) :
    Env.ReadAlike names (env.putAll ws) (env'.putAll ws) := by
  induction ws generalizing env env' with
  | nil => exact h
  | cons w ws ih =>
    apply ih
    intro name hname
    rw [valueOf_put, valueOf_put, h name hname]

namespace Node

/-- The names that occur in an expression as identifiers. -/
def reads : Node → List Scalar
  | .ident name => name.name?.toList
  | .unary _ operand => reads operand
  | .binary _ left right => reads left ++ reads right
  | _ => []
termination_by structural n => n

/-- The names that occur as identifiers in the expressions of a statement. -/
def stmtReads : Node → List Scalar
  | .binding _ expr => expr.reads
  | .call _ args => args.flatMap reads
  | _ => []

/-! ## Expressions and statements -/

theorem result_andThen {α β : Type} (o : Outcome α) (f : α → Outcome β) :
    (o.andThen f).result = o.result.bind fun a => (f a).result := by
  unfold Outcome.andThen
  cases o.result <;> rfl

/-- The value of an expression depends on its identifiers only. -/
theorem result_eval_congr (dialect : Dialect) {env env' : Env} {n : Node}
    (h : Env.ReadAlike n.reads env env') :
    (n.eval dialect env).result = (n.eval dialect env').result := by
  fun_induction eval dialect env n with
  | case2 name =>
    cases name with
    | scalar s => exact congrArg Except.ok (h s (List.mem_singleton_self s))
    | _ => rfl
  | case3 op operand ih => rw [eval, result_andThen, result_andThen, ih h]
  | case4 op left right ihl ihr =>
    rw [reads, Env.ReadAlike, List.forall_mem_append] at h
    simp only [eval, result_andThen, ihl h.1, ihr h.2]
  | _ => rfl

theorem printAll_congr (dialect : Dialect) {env env' : Env} {args : List Node}
    (h : Env.ReadAlike (args.flatMap reads) env env') :
    (printAll dialect env args).result = (printAll dialect env' args).result ∧
      Event.outputOf (printAll dialect env args).events =
        Event.outputOf (printAll dialect env' args).events := by
  induction args with
  | nil => exact ⟨rfl, rfl⟩
  | cons arg args ih =>
    rw [Env.ReadAlike, List.flatMap_cons, List.forall_mem_append] at h
    obtain ⟨hresult, houtput⟩ := ih h.2
    simp only [printAll, Outcome.andThen, result_eval_congr dialect h.1]
    cases (arg.eval dialect env').result with
    | error e => simp [outputOf_eval]
    | ok v =>
      cases hprint : v.print.result <;> simp [hprint, outputOf_eval, hresult, houtput]

theorem exec_congr (settings : Settings) {env env' : Env} {s : Node}
    (h : Env.ReadAlike s.stmtReads env env') :
    (s.exec settings env).result = (s.exec settings env').result ∧
      Event.outputOf (s.exec settings env).events =
        Event.outputOf (s.exec settings env').events := by
  cases s with
  | binding name expr =>
    simp only [exec, result_eval_congr settings.dialect h]
    split <;> simp [outputOf_eval]
  | call name args =>
    simp only [exec]
    split
    · exact ⟨rfl, rfl⟩
    · exact printAll_congr settings.dialect h
  | _ => exact ⟨rfl, rfl⟩

/-- A statement puts the same into two environments in which it reads alike. -/
theorem writes_singleton_congr {settings : Settings} {env env' : Env} {s : Node}
    (h : (s.exec settings env).result = (s.exec settings env').result) :
    writes settings env [s] = writes settings env' [s] := by
  simp only [writes, h]

/-! ## Programs -/

/-- Two runs of statements write, print and end the same. -/
structure RunAlike (settings : Settings) (last : Value) (body : List Node) (env env' : Env) :
    Prop where
  writes_eq : writes settings env body = writes settings env' body
  output_eq : Event.outputOf (execAll settings env last body).events =
    Event.outputOf (execAll settings env' last body).events
  result_eq : (execAll settings env last body).result = (execAll settings env' last body).result

/-- The names that read alike are all that the statements read, so they still read alike behind
    each statement, whatever it binds. -/
theorem runAlike (settings : Settings) (last : Value) {names : List Scalar} {body : List Node}
    (hbody : ∀ s ∈ body, s.stmtReads ⊆ names) {env env' : Env}
    (h : Env.ReadAlike names env env') : RunAlike settings last body env env' := by
  induction body generalizing env env' last with
  | nil => exact ⟨rfl, rfl, rfl⟩
  | cons s ss ih =>
    rw [List.forall_mem_cons] at hbody
    obtain ⟨hresult, houtput⟩ := exec_congr settings fun name hname => h name (hbody.1 hname)
    have hafter : Env.ReadAlike names (s.exec settings env).env (s.exec settings env').env := by
      rw [exec_env, exec_env, writes_singleton_congr hresult]
      exact h.putAll _
    cases hr : (s.exec settings env').result with
    | error e =>
      rw [hr] at hresult
      refine ⟨?_, ?_, ?_⟩ <;> simp [writes, execAll, hresult, hr, houtput]
    | ok v =>
      rw [hr] at hresult
      have hrest := ih v hbody.2 hafter
      refine ⟨?_, ?_, ?_⟩
      · simp only [writes, hresult, hr, hrest.writes_eq]
      · simp [execAll, hresult, hr, houtput, hrest.output_eq, Event.output]
      · simp only [execAll, hresult, hr, hrest.result_eq]

/-- A binding of the name is executed and succeeds when the statements are run. -/
def Binds (settings : Settings) (env : Env) (body : List Node) (name : Scalar) : Prop :=
  ∃ w ∈ writes settings env body, w.1.key = name.key

instance (settings : Settings) (env : Env) (body : List Node) (name : Scalar) :
    Decidable (Binds settings env body name) :=
  inferInstanceAs (Decidable (∃ w ∈ writes settings env body, _))

theorem get?_run_of_binds {settings : Settings} {env : Env} {body : List Node} {name : Scalar}
    (h : Binds settings env body name) :
    ((program body).run settings env).env.get? name =
      Table.lastWritten (writes settings env body) name := by
  rw [Binds, ← Table.isSome_lastWritten] at h
  rw [run_env, runWrites, Table.get?_putAll, Option.or_of_isSome h]

theorem get?_run_of_not_binds {settings : Settings} {env : Env} {body : List Node} {name : Scalar}
    (h : ¬ Binds settings env body name) :
    ((program body).run settings env).env.get? name = env.get? name := by
  rw [Binds, ← Table.isSome_lastWritten, Option.not_isSome_iff_eq_none] at h
  rw [run_env, runWrites, Table.get?_putAll, h, Option.none_or]

/-- A program prints and ends the same from two environments in which its identifiers read alike,
    and leaves the same behind in the names that it binds. A name that it does not bind is left as
    it was. To read a name that is not bound gives no value, and no evaluation binds one. -/
theorem run_depends_on_reads (settings : Settings) (body : List Node) :
    (∀ env env', Env.ReadAlike (body.flatMap stmtReads) env env' →
      Event.outputOf ((program body).run settings env).events =
          Event.outputOf ((program body).run settings env').events ∧
        ((program body).run settings env).result = ((program body).run settings env').result ∧
        ∀ name, Binds settings env body name ∨ Binds settings env' body name →
          ((program body).run settings env).env.get? name =
            ((program body).run settings env').env.get? name) ∧
    (∀ env name, ¬ Binds settings env body name →
      ((program body).run settings env).env.get? name = env.get? name) ∧
    (∀ env name, env.contains name = false →
      ((ident (.scalar name)).eval settings.dialect env).result = .ok .undefined ∧
        (¬ Binds settings env body name →
          ((program body).run settings env).env.contains name = false)) ∧
    ∀ (session : Session) (tree scope : Json) (place : Option Scalar),
      (session.perform (.evaluate tree scope)).1.scope place = session.scope place := by
  refine ⟨?_, ?_, ?_, ?_⟩
  · intro env env' halike
    have hreads : ∀ s ∈ body, s.stmtReads ⊆ body.flatMap stmtReads :=
      fun s hs name hname => List.mem_flatMap.mpr ⟨s, hs, hname⟩
    obtain ⟨hwrites, houtput, hresult⟩ := runAlike settings .undefined hreads halike
    refine ⟨houtput, hresult, ?_⟩
    intro name hbinds
    have hsame : Binds settings env body name ↔ Binds settings env' body name := by
      rw [Binds, Binds, hwrites]
    rw [hsame, or_self] at hbinds
    rw [get?_run_of_binds (hsame.mpr hbinds), get?_run_of_binds hbinds, hwrites]
  · intro env name hname
    exact get?_run_of_not_binds hname
  · intro env name habsent
    have hnone : env.get? name = none := by simpa [Table.contains] using habsent
    refine ⟨?_, ?_⟩
    · rw [eval, Env.result_look, Env.valueOf, Env.read?_eq_filter, hnone]
      rfl
    · intro hname
      rw [Table.contains, get?_run_of_not_binds hname, hnone]
      rfl
  · intro session tree scope place
    exact session.scope_perform (.evaluate tree scope) place

/-- A binding of a name that only one of the environments has, and a fault behind it by a name that
    has no value in the one and is absent in the other; and names that the program does not bind. -/
theorem run_depends_on_reads_before_fault :
    ((program [.ofBinding "k" (.ofName "x"),
        .ofBinding "x" (.ofBinary .div (.ofName "w") (.ofName "x"))]).run (.new .standard)
          (Table.empty.put (.text "x") (.int 3))).env.get? (.text "k") =
      ((program [.ofBinding "k" (.ofName "x"),
        .ofBinding "x" (.ofBinary .div (.ofName "w") (.ofName "x"))]).run (.new .standard)
          (((Table.empty.put (.text "k") (.bool true)).put (.text "x") (.int 3)).put (.text "w")
            .undefined)).env.get? (.text "k") ∧
    ((program [.ofBinding "k" (.ofName "x"),
        .ofBinding "x" (.ofBinary .div (.ofName "w") (.ofName "x"))]).run (.new .standard)
          (Table.empty.put (.text "x") (.int 3))).env.get? (.text "x") = some (.int 3) ∧
    ((program [.ofBinding "k" (.ofName "x"),
        .ofBinding "x" (.ofBinary .div (.ofName "w") (.ofName "x"))]).run (.new .standard)
          (Table.empty.put (.text "x") (.int 3))).env.contains (.text "w") = false := by
  obtain ⟨halike, hkept, habsent, -⟩ := run_depends_on_reads (.new .standard)
    [.ofBinding "k" (.ofName "x"), .ofBinding "x" (.ofBinary .div (.ofName "w") (.ofName "x"))]
  refine ⟨?_, ?_, ?_⟩
  · exact (halike _ _ (by decide)).2.2 _ (.inl (by decide))
  · exact hkept _ _ (by decide)
  · exact (habsent _ _ (by decide)).2 (by decide)

end Node

end LineScript
