-- SUMMARY: The level of the trace and the closing of it change nothing but the trace.
import LineScript.Proofs.Legibility
import LineScript.Proofs.Writes

/-!
# Tracing

A session in which no integer is too long to be written answers, prints and binds the same at every
level of the trace, and wherever the trace is closed. What a step does depends on the level in one
other place only: a note that is no text is refused by an open trace and passed over by a closed
one. A step at another level is therefore the same step with another level written into the session
and the report, and what holds along a whole script follows step by step.
-/

namespace LineScript

/-! ## Messages -/

namespace Event

/-- The event is the binding or the look-up of a name. -/
def isAccess : Event → Bool
  | .looked .. | .bound .. => true
  | _ => false

/-- The event is a step of the parser. -/
def isParsing : Event → Bool
  | .parsed _ => true
  | _ => false

theorem filter_writtenAt_one (events : List Event) :
    events.filter (writtenAt 1) = (events.filter (writtenAt 2)).filter (!·.isAccess) := by
  rw [List.filter_filter]
  apply List.filter_congr
  intro e _
  cases e <;> simp [writtenAt, shownAt, level?, isAccess]

theorem filter_writtenAt_two {level : Int} (h : 3 ≤ level) (events : List Event) :
    events.filter (writtenAt 2) = (events.filter (writtenAt level)).filter (!·.isParsing) := by
  have hone : (1 : Int) ≤ level := by omega
  have htwo : (2 : Int) ≤ level := by omega
  rw [List.filter_filter]
  apply List.filter_congr
  intro e _
  cases e <;> simp [writtenAt, shownAt, level?, isParsing, hone, htwo]

end Event

namespace Session

/-- The events that the trace shows of a step; their texts are the lines that the step adds. -/
def Report.messages (r : Report) : List Event := r.events.filter (Event.writtenAt r.level)

theorem Report.trace_of_nonpos {r : Report} (h : r.level ≤ 0) : r.trace = "" := by
  have hnone : r.events.filter (Event.writtenAt r.level) = [] := by
    apply List.filter_eq_nil_iff.mpr
    intro e _
    simp [Event.writtenAt, Event.shownAt_of_nonpos h e]
  rw [Report.trace, Event.traceOf, hnone]
  rfl

/-! ## Steps and the trace -/

/-- The step closes the trace. -/
def Step.isClose : Step → Bool
  | .close => true
  | _ => false

/-- The step is about the trace alone: it closes the trace, or hands it something that is no
    text. -/
def Step.isOfTrace : Step → Bool
  | .close => true
  | .note (.text _) => false
  | .note _ => true
  | _ => false

/-- The session with another level of the trace. -/
def atLevel (s : Session) (level : Int) : Session := { s with level := level }

/-- The session and the report with another level of the trace. -/
def relevel (level : Int) (x : Session × Report) : Session × Report :=
  (x.1.atLevel level, { x.2 with level := level })

/-- The sessions differ in the level of the trace at most. -/
structure Alike (s t : Session) : Prop where
  settings_eq : s.settings = t.settings
  env_eq : s.env = t.env
  scopes_eq : s.scopes = t.scopes

namespace Alike

variable {s t u : Session}

theorem symm (h : s.Alike t) : t.Alike s :=
  ⟨h.settings_eq.symm, h.env_eq.symm, h.scopes_eq.symm⟩

theorem trans (h : s.Alike t) (h' : t.Alike u) : s.Alike u :=
  ⟨h.settings_eq.trans h'.settings_eq, h.env_eq.trans h'.env_eq, h.scopes_eq.trans h'.scopes_eq⟩

theorem atLevel (s : Session) (level : Int) : s.Alike (s.atLevel level) := ⟨rfl, rfl, rfl⟩

theorem eq_atLevel (h : s.Alike t) : t = s.atLevel t.level := by
  obtain ⟨level, settings, env, scopes⟩ := s
  obtain ⟨level', settings', env', scopes'⟩ := t
  obtain ⟨rfl, rfl, rfl⟩ := h
  rfl

end Alike

/-! ## Sessions without overlong integers -/

/-- All values of the environments can be written. -/
def Legible (s : Session) : Prop := ∀ place, (s.scope place).Legible

/-- The tree that the step takes and the value that it sets can be written. -/
def Step.Legible : Step → Prop
  | .runTree tree _ | .execute tree _ | .evaluate tree _ =>
    ∀ n, Node.ofJson tree = .ok n → n.Legible
  | .set _ value _ => value.Legible
  | _ => True

theorem legible_new (level : Int) (dialect : Dialect) : (new level dialect).Legible := by
  intro place
  rw [scope_new]
  exact Env.legible_empty

theorem Alike.legible {s t : Session} (h : s.Alike t) (hs : s.Legible) : t.Legible := by
  rw [h.eq_atLevel]
  intro place
  cases place with
  | none => exact hs none
  | some name => exact hs (some name)

theorem legible_writes {e : Effect} (h : ∀ event ∈ e.events, event.Legible) (level : Int)
    (start : Env) : ∀ w ∈ e.writes level start, w.2.Legible := by
  intro w hw
  obtain ⟨event, hevent, hbound⟩ :=
    List.mem_filterMap.mp ((Effect.writes_isPrefix level start e).subset hw)
  cases event with
  | bound name value =>
    cases hbound
    exact (h _ hevent).2
  | _ => cases hbound

theorem Step.Legible.writes {s : Session} {step : Step} (hs : s.Legible) (hstep : step.Legible)
    (place : Option Scalar) : ∀ w ∈ step.writes s place, w.2.Legible := by
  cases step with
  | run source scope =>
    simp only [Step.writes]
    split
    · next program hprogram =>
      split
      · exact legible_writes
          ((Program.legible_of_ofSource hprogram).run s.settings (hs place)).events _ _
      · exact List.forall_mem_nil _
    · exact List.forall_mem_nil _
  | runTree tree scope =>
    simp only [Step.writes]
    split
    · next n hn =>
      split
      · exact legible_writes ((hstep n hn).run s.settings (hs place)).events _ _
      · exact List.forall_mem_nil _
    · exact List.forall_mem_nil _
  | execute tree scope =>
    simp only [Step.writes]
    split
    · next n hn =>
      split
      · exact legible_writes ((hstep n hn).exec s.settings (hs place)).events _ _
      · exact List.forall_mem_nil _
    · exact List.forall_mem_nil _
  | set name value scope =>
    simp only [Step.writes]
    split
    · split
      · exact List.forall_mem_singleton.mpr hstep
      · exact List.forall_mem_nil _
    · exact List.forall_mem_nil _
  | _ => exact List.forall_mem_nil _

theorem Legible.perform {s : Session} (hs : s.Legible) {step : Step} (hstep : step.Legible) :
    (s.perform step).1.Legible := by
  intro place
  rw [scope_perform]
  exact Table.forall_mem_putAll (hs place) (hstep.writes hs place)

/-! ## One step at another level -/

section

variable (s : Session) (level : Int)

theorem settings_atLevel : (s.atLevel level).settings = s.settings := rfl

theorem scope_atLevel (name : Option Scalar) : (s.atLevel level).scope name = s.scope name := by
  cases name <;> rfl

variable {s level}

/-- At another level the step does the same if the trace lets it: the level is not another one, or
    nothing occurs that cannot be written. -/
def Lets (s : Session) (level : Int) (step : Step) : Prop :=
  level = s.level ∨ (s.Legible ∧ step.Legible)

theorem settle_atLevel {scope : Option Scalar} (before : List Event) {e : Effect}
    (he : level = s.level ∨ ∀ event ∈ e.events, event.Legible) :
    (s.atLevel level).settle scope before e = relevel level (s.settle scope before e) := by
  have hwatched : e.watched level (s.scope scope) = e.watched s.level (s.scope scope) := by
    rcases he with rfl | he
    · rfl
    · rw [Effect.watched_of_legible he, Effect.watched_of_legible he]
  have hlevel : (s.atLevel level).level = level := rfl
  simp only [settle, scope_atLevel, hlevel, hwatched]
  cases scope <;> rfl

variable (s level)

theorem withName_atLevel (name : Json) {k k' : Scalar → Session × Report}
    (hk : ∀ n, k' n = relevel level (k n)) :
    (s.atLevel level).withName name k' = relevel level (s.withName name k) := by
  unfold withName
  split
  · exact hk _
  · rfl

theorem inScope_atLevel (scope : Json) {k k' : Option Scalar → Session × Report}
    (hk : ∀ name, k' name = relevel level (k name)) :
    (s.atLevel level).inScope scope k' = relevel level (s.inScope scope k) := by
  unfold inScope
  split
  · exact hk none
  · apply withName_atLevel
    intro name
    exact hk (some name)

theorem withBuiltin_atLevel (name : Json) {k k' : Scalar → Builtin → Session × Report}
    (hk : ∀ n b, k' n b = relevel level (k n b)) :
    (s.atLevel level).withBuiltin name k' = relevel level (s.withBuiltin name k) := by
  apply withName_atLevel
  intro n
  rw [settings_atLevel]
  cases s.settings.builtins.get? n with
  | some b => exact hk n b
  | none => rfl

/-- The steps that take a tree differ in what they do with it only. -/
theorem onTree_atLevel (tree scope : Json) (effect : Env → Node → Effect)
    (heffect : level = s.level ∨ ∀ place n, Node.ofJson tree = .ok n →
      ∀ event ∈ (effect (s.scope place) n).events, event.Legible) :
    ((s.atLevel level).inScope scope fun place =>
        (s.atLevel level).withTree tree fun n =>
          (s.atLevel level).settle place [] (effect ((s.atLevel level).scope place) n)) =
      relevel level (s.inScope scope fun place =>
        s.withTree tree fun n => s.settle place [] (effect (s.scope place) n)) := by
  apply inScope_atLevel
  intro place
  unfold withTree
  cases htree : Node.ofJson tree with
  | error e => rfl
  | ok n =>
    simp only [scope_atLevel]
    exact settle_atLevel [] (heffect.imp_right fun h => h place n htree)

/-- The steps that ask about a name differ in their answer only. -/
theorem onName_atLevel (name scope : Json) (answer : Env → Scalar → Answer) :
    ((s.atLevel level).inScope scope fun place =>
        (s.atLevel level).withName name fun n =>
          (s.atLevel level).reply (answer ((s.atLevel level).scope place) n)) =
      relevel level (s.inScope scope fun place =>
        s.withName name fun n => s.reply (answer (s.scope place) n)) := by
  apply inScope_atLevel
  intro place
  apply withName_atLevel
  intro n
  rw [scope_atLevel]
  rfl

/-- A step that is not about the trace alone does the same at every level. -/
theorem perform_atLevel {step : Step} (h : step.isOfTrace = false) (hlets : s.Lets level step) :
    (s.atLevel level).perform step = relevel level (s.perform step) := by
  cases step with
  | run source scope =>
    simp only [perform]
    apply inScope_atLevel
    intro place
    rw [scope_atLevel]
    cases hsource : Program.ofSource source with
    | error e => rfl
    | ok program =>
      refine settle_atLevel _ (hlets.imp_right fun hs => ?_)
      exact ((Program.legible_of_ofSource hsource).run s.settings (hs.1 place)).events
  | runTree tree scope =>
    refine onTree_atLevel s level tree scope (fun env n => n.run s.settings env)
      (hlets.imp_right fun hs place n hn => ?_)
    exact ((hs.2 n hn).run s.settings (hs.1 place)).events
  | execute tree scope =>
    refine onTree_atLevel s level tree scope (fun env n => n.exec s.settings env)
      (hlets.imp_right fun hs place n hn => ?_)
    exact ((hs.2 n hn).exec s.settings (hs.1 place)).events
  | evaluate tree scope =>
    refine onTree_atLevel s level tree scope (fun env n =>
      ⟨(n.eval s.settings.dialect env).events, env, (n.eval s.settings.dialect env).result⟩)
      (hlets.imp_right fun hs place n hn => ?_)
    exact ((hs.2 n hn).eval s.settings.dialect (hs.1 place)).events
  | unary op v => rfl
  | binary op a b => rfl
  | get name scope => exact onName_atLevel s level name scope fun env n => .reading (env.read? n)
  | set name value scope =>
    simp only [perform]
    apply inScope_atLevel
    intro place
    apply withName_atLevel
    intro n
    rw [scope_atLevel]
    cases place <;> rfl
  | has name scope =>
    exact onName_atLevel s level name scope fun env n => .membership (env.contains n)
  | names scope =>
    simp only [perform]
    apply inScope_atLevel
    intro place
    rw [scope_atLevel]
    rfl
  | «alias» name existing =>
    simp only [perform]
    apply withBuiltin_atLevel
    intro m b
    apply withName_atLevel
    intro n
    rfl
  | drop name =>
    simp only [perform]
    apply withBuiltin_atLevel
    intro n b
    rfl
  | builtins =>
    simp only [perform, settings_atLevel]
    cases s.settings.builtins.sorted? <;> rfl
  | note text =>
    cases text with
    | scalar v =>
      cases v with
      | text text => rfl
      | _ => cases h
    | _ => cases h
  | close => cases h

end

/-! ## What each step keeps -/

/-- A step that is about the trace alone shows nothing and changes the level at most. -/
theorem exists_perform_of_isOfTrace (s : Session) {step : Step} (h : step.isOfTrace = true) :
    ∃ answer, s.perform step =
      (if step.isClose then s.atLevel 0 else s, ⟨answer, [], s.level⟩) := by
  cases step with
  | note text =>
    have hnote : ∃ answer, (if 0 < s.level then s.refuse .notAText else s.reply .done) =
        (s, (⟨answer, [], s.level⟩ : Report)) := by
      split
      · exact ⟨_, rfl⟩
      · exact ⟨_, rfl⟩
    cases text with
    | scalar v =>
      cases v with
      | text text => cases h
      | _ => exact hnote
    | _ => exact hnote
  | close => exact ⟨_, rfl⟩
  | _ => cases h

theorem isClose_of_isOfTrace {step : Step} (h : step.isOfTrace = false) :
    step.isClose = false := by
  cases step with
  | close => cases h
  | _ => rfl

/-- A step reports the level at which it was performed, and leaves it unless it closes the trace. -/
theorem level_perform (s : Session) (step : Step) :
    (s.perform step).2.level = s.level ∧
      (s.perform step).1.level = if step.isClose then 0 else s.level := by
  cases htrace : step.isOfTrace with
  | true =>
    obtain ⟨answer, hstep⟩ := exists_perform_of_isOfTrace s htrace
    rw [hstep]
    refine ⟨rfl, ?_⟩
    split <;> rfl
  | false =>
    have hstep := perform_atLevel s s.level htrace (.inl rfl)
    rw [isClose_of_isOfTrace htrace]
    exact ⟨congrArg (·.2.level) hstep, congrArg (·.1.level) hstep⟩

namespace Alike

variable {s t : Session}

theorem perform (h : s.Alike t) (hs : s.Legible) {step : Step} (hstep : step.Legible) :
    (s.perform step).1.Alike (t.perform step).1 := by
  cases htrace : step.isOfTrace with
  | true =>
    obtain ⟨answer, hs⟩ := exists_perform_of_isOfTrace s htrace
    obtain ⟨answer', ht⟩ := exists_perform_of_isOfTrace t htrace
    rw [hs, ht]
    split
    · exact ⟨h.settings_eq, h.env_eq, h.scopes_eq⟩
    · exact h
  | false =>
    rw [h.eq_atLevel, perform_atLevel s t.level htrace (.inr ⟨hs, hstep⟩)]
    exact .atLevel _ _

theorem events_eq (h : s.Alike t) (hs : s.Legible) {step : Step} (hstep : step.Legible) :
    (s.perform step).2.events = (t.perform step).2.events := by
  cases htrace : step.isOfTrace with
  | true =>
    obtain ⟨answer, hs⟩ := exists_perform_of_isOfTrace s htrace
    obtain ⟨answer', ht⟩ := exists_perform_of_isOfTrace t htrace
    rw [hs, ht]
  | false =>
    rw [h.eq_atLevel, perform_atLevel s t.level htrace (.inr ⟨hs, hstep⟩)]
    rfl

theorem answer_eq (h : s.Alike t) (hs : s.Legible) {step : Step} (hstep : step.Legible)
    (htrace : step.isOfTrace = false) :
    (s.perform step).2.answer = (t.perform step).2.answer := by
  rw [h.eq_atLevel, perform_atLevel s t.level htrace (.inr ⟨hs, hstep⟩)]
  rfl

end Alike

/-! ## Scripts -/

/-- What a script shows apart from its trace: the answer and the output of each step that is not
    about the trace alone. -/
def shown (s : Session) (steps : List Step) : List (Step × Except Failure Answer × String) :=
  ((steps.zip (s.performAll steps).2).filter fun p => !p.1.isOfTrace).map fun p =>
    (p.1, p.2.answer, p.2.output)

/-- The events of each step of a script. -/
def events (s : Session) (steps : List Step) : List (List Event) :=
  (s.performAll steps).2.map Report.events

/-- The messages of each step of a script. -/
def messages (s : Session) (steps : List Step) : List (List Event) :=
  (s.performAll steps).2.map Report.messages

theorem shown_cons (s : Session) (step : Step) (steps : List Step) :
    s.shown (step :: steps) =
      (if step.isOfTrace then [] else
        [(step, (s.perform step).2.answer, (s.perform step).2.output)]) ++
        (s.perform step).1.shown steps := by
  cases htrace : step.isOfTrace <;> simp [shown, performAll, htrace]

/-- To close the trace brings nothing into a script that cannot be written. -/
theorem legible_of_filter_eq {steps steps' : List Step} (hsteps : ∀ step ∈ steps, step.Legible)
    (hsame : steps.filter (!·.isClose) = steps'.filter (!·.isClose)) :
    ∀ step ∈ steps', step.Legible := by
  intro step hstep
  cases hclose : step.isClose with
  | true =>
    cases step with
    | close => trivial
    | _ => cases hclose
  | false =>
    have hkept : step ∈ steps'.filter (!·.isClose) := List.mem_filter.mpr ⟨hstep, by simp [hclose]⟩
    rw [← hsame] at hkept
    exact hsteps step (List.mem_filter.mp hkept).1

/-- A script shows the same and ends alike without the steps that close its trace. -/
theorem Alike.script {s t : Session} (h : s.Alike t) (hs : s.Legible) {steps : List Step}
    (hsteps : ∀ step ∈ steps, step.Legible) :
    (s.performAll steps).1.Alike (t.performAll (steps.filter (!·.isClose))).1 ∧
      s.shown steps = t.shown (steps.filter (!·.isClose)) := by
  induction steps generalizing s t with
  | nil => exact ⟨h, rfl⟩
  | cons step steps ih =>
    rw [List.forall_mem_cons] at hsteps
    have hnext := hs.perform hsteps.1
    cases hclose : step.isClose with
    | true =>
      have hstep : step = .close := by
        cases step with
        | close => rfl
        | _ => cases hclose
      subst hstep
      rw [List.filter_cons_of_neg (by simp [hclose]), shown_cons]
      exact ih ((Alike.atLevel s 0).symm.trans h) hnext hsteps.2
    | false =>
      rw [List.filter_cons_of_pos (by simp [hclose]), shown_cons, shown_cons]
      obtain ⟨hend, hshown⟩ := ih (h.perform hs hsteps.1) hnext hsteps.2
      refine ⟨hend, ?_⟩
      rw [hshown]
      cases htrace : step.isOfTrace with
      | true => rfl
      | false =>
        rw [h.answer_eq hs hsteps.1 htrace, Report.output, Report.output, h.events_eq hs hsteps.1]

theorem trace_of_level_nonpos {s : Session} (h : s.level ≤ 0) (steps : List Step) :
    ∀ r ∈ (s.performAll steps).2, r.trace = "" := by
  induction steps generalizing s with
  | nil => exact List.forall_mem_nil _
  | cons step steps ih =>
    obtain ⟨hreport, hsession⟩ := level_perform s step
    have hlater : (s.perform step).1.level ≤ 0 := by
      rw [hsession]
      split <;> omega
    intro r hr
    rcases List.mem_cons.mp hr with rfl | hr
    · exact Report.trace_of_nonpos (Int.le_trans (Int.le_of_eq hreport) h)
    · exact ih hlater r hr

/-- Behind a close no step adds to the trace. -/
theorem trace_of_closed {s : Session} {steps : List Step} {i j : Nat} {r : Report}
    (hclose : steps[i]? = some .close) (hij : i < j) (hr : (s.performAll steps).2[j]? = some r) :
    r.trace = "" := by
  induction steps generalizing s i j with
  | nil => cases hclose
  | cons step steps ih =>
    cases j with
    | zero => omega
    | succ j =>
      cases i with
      | zero =>
        obtain rfl := Option.some.inj hclose
        exact trace_of_level_nonpos (Int.le_refl 0) steps r (List.mem_of_getElem? hr)
      | succ i => exact ih hclose (by omega) hr

/-- Without a close the messages are the events of the script that the level lets through. -/
theorem messages_of_unclosed {steps : List Step} (h : ∀ step ∈ steps, step.isClose = false)
    (hsteps : ∀ step ∈ steps, step.Legible) {s t : Session} (hst : s.Alike t) (hs : s.Legible) :
    s.messages steps = (t.events steps).map (List.filter (Event.writtenAt s.level)) := by
  induction steps generalizing s t with
  | nil => rfl
  | cons step steps ih =>
    rw [List.forall_mem_cons] at h hsteps
    obtain ⟨hreport, hsession⟩ := level_perform s step
    rw [h.1] at hsession
    have hrest := ih h.2 hsteps.2 (hst.perform hs hsteps.1) (hs.perform hsteps.1)
    rw [hsession] at hrest
    have hfirst : (s.perform step).2.messages =
        (t.perform step).2.events.filter (Event.writtenAt s.level) := by
      rw [Report.messages, hreport, hst.events_eq hs hsteps.1]
    change (s.perform step).2.messages :: (s.perform step).1.messages steps = _ :: _
    rw [hfirst, hrest]
    rfl

/-- Two scripts that differ in their levels and in where they close the trace show the same and end
    alike, if neither they nor the session before them hold an integer that is too long to be
    written. Behind a close nothing is added to the trace. Without a close and without such integers
    the messages of level one are those of level two less the bindings and the look-ups, and those
    of level two are those of any higher level less the steps of the parser, step by step and in
    order. A note is one line of every trace that is open. -/
theorem tracing_changes_only_the_trace (s : Session) :
    (∀ level level' steps steps', s.Legible → (∀ step ∈ steps, step.Legible) →
      steps.filter (!·.isClose) = steps'.filter (!·.isClose) →
      ((s.atLevel level).performAll steps).1.Alike ((s.atLevel level').performAll steps').1 ∧
        (s.atLevel level).shown steps = (s.atLevel level').shown steps') ∧
    (∀ level steps (i j : Nat) (r : Report), steps[i]? = some Step.close → i < j →
      ((s.atLevel level).performAll steps).2[j]? = some r → r.trace = "") ∧
    (∀ steps, s.Legible → (∀ step ∈ steps, step.Legible) → (∀ step ∈ steps, step.isClose = false) →
      (s.atLevel 1).messages steps =
          ((s.atLevel 2).messages steps).map (List.filter (!·.isAccess)) ∧
        ∀ level, 3 ≤ level → (s.atLevel 2).messages steps =
          ((s.atLevel level).messages steps).map (List.filter (!·.isParsing))) ∧
    ∀ level text, 0 < level →
      ((s.atLevel level).perform (.note (.text text))).2.trace = text ++ "\n" := by
  have hlegible : s.Legible → ∀ level, (s.atLevel level).Legible :=
    fun hs level => (Alike.atLevel s level).legible hs
  refine ⟨?_, ?_, ?_, ?_⟩
  · intro level level' steps steps' hs hsteps hsame
    have hsteps' := legible_of_filter_eq hsteps hsame
    obtain ⟨hend, hshown⟩ := (Alike.atLevel s level).symm.script (hlegible hs level) hsteps
    obtain ⟨hend', hshown'⟩ := (Alike.atLevel s level').symm.script (hlegible hs level') hsteps'
    rw [hsame] at hend hshown
    exact ⟨hend.trans hend'.symm, hshown.trans hshown'.symm⟩
  · intro level steps i j r
    exact trace_of_closed
  · intro steps hs hsteps hopen
    have hlevel : ∀ level, (s.atLevel level).messages steps =
        (s.events steps).map (List.filter (Event.writtenAt level)) := fun level =>
      messages_of_unclosed hopen hsteps (Alike.atLevel s level).symm (hlegible hs level)
    constructor
    · rw [hlevel, hlevel, List.map_map]
      exact List.map_congr_left fun es _ => Event.filter_writtenAt_one es
    · intro level hthree
      rw [hlevel, hlevel, List.map_map]
      exact List.map_congr_left fun es _ => Event.filter_writtenAt_two hthree es
  · intro level text hlevel
    have hwritten : Event.writtenAt level (.noted text) = true :=
      Bool.and_eq_true_iff.mpr ⟨decide_eq_true (Int.add_one_le_of_lt hlevel), rfl⟩
    simp [perform, Report.trace, atLevel, Event.traceOf, hwritten, Event.text]

/-- A run that fails after a binding and a print, traced down to the parser and closed behind it,
    against the same run without a trace; a note behind a close; and the messages of such a run. -/
theorem tracing_changes_only_the_trace_of_failing_run :
    (((new 3 .legacy).performAll [.run "x = 6\nprint x, x / 0".toList .null, .close,
        .get (.text "x") .null]).1.Alike
      ((new 0 .legacy).performAll [.run "x = 6\nprint x, x / 0".toList .null,
        .get (.text "x") .null]).1 ∧
      (new 3 .legacy).shown [.run "x = 6\nprint x, x / 0".toList .null, .close,
          .get (.text "x") .null] =
        (new 0 .legacy).shown [.run "x = 6\nprint x, x / 0".toList .null,
          .get (.text "x") .null]) ∧
    Report.trace ⟨.ok .done, [.noted "late"], 0⟩ = "" ∧
    ((new 1 .legacy).messages [.run "x = 6\nprint x, x / 0".toList .null] =
        ((new 2 .legacy).messages [.run "x = 6\nprint x, x / 0".toList .null]).map
          (List.filter (!·.isAccess)) ∧
      (new 2 .legacy).messages [.run "x = 6\nprint x, x / 0".toList .null] =
        ((new 4 .legacy).messages [.run "x = 6\nprint x, x / 0".toList .null]).map
          (List.filter (!·.isParsing))) ∧
    ((new 2 .legacy).perform (.note (.text "late"))).2.trace = "late\n" := by
  obtain ⟨hsame, hclosed, hmessages, hnote⟩ :=
    tracing_changes_only_the_trace (new 0 .legacy)
  refine ⟨hsame 3 0 _ _ (legible_new 0 .legacy) (by simp [Step.Legible]) rfl, ?_, ?_, hnote 2 "late" (by decide)⟩
  · exact hclosed 3 [.note (.text "early"), .close, .note (.text "late")] 1 2 _ rfl (by decide) rfl
  · obtain ⟨hone, htwo⟩ :=
      hmessages [.run "x = 6\nprint x, x / 0".toList .null] (legible_new 0 .legacy)
        (by simp [Step.Legible]) (by simp [Step.isClose])
    exact ⟨hone, htwo 4 (by decide)⟩

end Session

end LineScript
