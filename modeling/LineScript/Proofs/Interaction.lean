-- SUMMARY: The loop over the lines of a program does what its statements do one by one.
import LineScript.Proofs.Lines
import LineScript.Proofs.TypeSafety
import LineScript.Repl

/-!
# Interaction

The loop reads a program line by line and never sees it as a whole. Still it ends with the bindings
and the output of its statements, executed one by one, where a statement that fails is reported and
dropped. A line of a program never says `exit`, and one without text other than white space holds no
statement with an effect, so the lines that the loop treats differently do not matter.
-/

namespace LineScript

/-! ## White space -/

namespace Token

theorem not_isNameChar_of_isBlank {c : Char} (h : Text.isBlank c) : ¬ isNameChar c := by
  have hc := Text.toNat_of_isBlank h
  intro hname
  rcases isNameChar_iff.mp hname with hstart | hdigit
  · rcases isNameStart_iff.mp hstart with hupper | hlower | rfl
    · omega
    · omega
    · revert hc
      decide
  · have hdigit := Text.isDigit_iff.mp hdigit
    omega

/-- White space is dropped within a line, and otherwise is no part of a program. -/
theorem start_of_isBlank {c : Char} (h : Text.isBlank c) (hc : c ≠ '\n') (p : Position) :
    ∃ ts, Pending.start p c = (ts, .nothing) ∧ ∀ t ∈ ts, t.kind = .illegal := by
  by_cases hspace : isSpace c
  · exact ⟨[], by simp [Pending.start, hspace], List.forall_mem_nil _⟩
  · have hbounds := Text.toNat_of_isBlank h
    have hmark : Segment.IsMark c := by
      refine ⟨hspace, ?_, not_isNameChar_of_isBlank h⟩
      rintro rfl
      revert hbounds
      decide
    have hpair : Kind.ofPair? c = none := by
      unfold Kind.ofPair?
      split <;> first | rfl | contradiction
    have hillegal : Kind.ofMark c = .illegal := by
      unfold Kind.ofMark
      split <;> first | rfl | contradiction
    refine ⟨[Token.placed p .illegal [c]], ?_, ?_⟩
    · rw [hmark.start_of_none hpair, hillegal]
    · rw [List.forall_mem_singleton]
      rfl

theorem scanFrom_blanks {run : List Char} (hrun : ∀ c ∈ run, Text.isBlank c) (hline : '\n' ∉ run)
    (p : Position) (rest : List Char) :
    ∃ ts, scanFrom .nothing p (run ++ rest) = ts ++ scanFrom .nothing (p.afterAll run) rest ∧
      ∀ t ∈ ts, t.kind = .illegal := by
  induction run generalizing p with
  | nil => exact ⟨[], rfl, List.forall_mem_nil _⟩
  | cons c run ih =>
    rw [List.forall_mem_cons] at hrun
    rw [List.mem_cons, not_or] at hline
    obtain ⟨first, hstart, hfirst⟩ := start_of_isBlank hrun.1 (Ne.symm hline.1) p
    obtain ⟨ts, hscan, hts⟩ := ih hrun.2 hline.2 (p.after c)
    refine ⟨first ++ ts, ?_, List.forall_mem_append.mpr ⟨hfirst, hts⟩⟩
    rw [List.cons_append, scanFrom, Pending.step_nothing, hstart, hscan, List.append_assoc]
    rfl

theorem lead_of_blank {l : List Char} (hl : '\n' ∉ l) (h : Text.trim l = []) :
    ∀ t ∈ lead l, t.kind = .illegal := by
  obtain ⟨front, back, hsplit, hfront, hback⟩ := Text.exists_trim l
  rw [h, List.nil_append] at hsplit
  have hblank : ∀ c ∈ l, Text.isBlank c := by
    rw [hsplit]
    exact List.forall_mem_append.mpr ⟨hfront, hback⟩
  obtain ⟨ts, hscan, hts⟩ := scanFrom_blanks hblank hl .start []
  rw [List.append_nil] at hscan
  rwa [lead_of_scan hscan]

theorem lead_of_exit {l : List Char} (hl : '\n' ∉ l) (h : Text.trim l = "exit".toList) :
    ∃ front t back, lead l = front ++ t :: back ∧ t.kind = .ident ∧
      (∀ u ∈ front, u.kind = .illegal) ∧ ∀ u ∈ back, u.kind = .illegal := by
  obtain ⟨front, back, hsplit, hfront, hback⟩ := Text.exists_trim l
  rw [h] at hsplit
  have hlines : '\n' ∉ front ∧ '\n' ∉ back := by
    rw [hsplit, List.mem_append, List.mem_append] at hl
    tauto
  obtain ⟨ts, hscan, hts⟩ := scanFrom_blanks hfront hlines.1 .start ("exit".toList ++ back)
  obtain ⟨us, hscan', hus⟩ :=
    scanFrom_blanks hback hlines.2 ((Position.start.afterAll front).afterAll "exit".toList) []
  rw [List.append_nil] at hscan'
  have hword : ∀ p, scanFrom .nothing p ("exit".toList ++ back) =
      Token.placed p .ident "exit".toList ::
        scanFrom .nothing (p.afterAll "exit".toList) back := by
    intro p
    have hstop : ∀ c, back.head? = some c →
        (Pending.word p "exit".toList.reverse).extend? c = none := by
      intro c hc
      have hblank := hback c (List.mem_of_head? hc)
      simp [Pending.extend?, not_isNameChar_of_isBlank hblank]
    exact scanFrom_flush _ hstop
  refine ⟨ts, Token.placed (Position.start.afterAll front) .ident "exit".toList, us, ?_, rfl, hts,
    hus⟩
  apply lead_of_scan
  rw [scan, hsplit, hscan, hword, hscan', List.append_assoc, List.cons_append]
  rfl

end Token

/-! ## The lines of a program -/

theorem Grammar.Stmt.first {t : Token} {ts : List Token} {n : Node} (h : Stmt (t :: ts) n) :
    t.kind = .const ∨ t.kind = .print ∨
      (t.kind = .ident ∧ ∃ a us, ts = a :: us ∧ a.kind = .assign) := by
  cases h with
  | const hc => exact .inl hc
  | binding hn ha => exact .inr (.inr ⟨hn, _, _, rfl, ha⟩)
  | print hp => exact .inr (.inl hp)

theorem Grammar.Stmt.first_ne_illegal {t : Token} {ts : List Token} {n : Node}
    (h : Stmt (t :: ts) n) : t.kind ≠ .illegal := by
  intro hillegal
  rcases h.first with hkind | hkind | ⟨hkind, -⟩ <;> rw [hillegal] at hkind <;> cases hkind

namespace Program

/-- The line alone is at most one statement, it does not say `exit`, and if it is white space it is
    no statement with an effect. -/
structure LineParses (line : List Char) (part : List Node) : Prop where
  parses : ofSource line = .ok (.program part)
  single : part = [] ∨ ∃ n, part = [n]
  not_exit : Text.trim line ≠ "exit".toList
  blank : Text.trim line = [] → ∀ n ∈ part, n = .blank

theorem lineParses {l line : List Char} {part : List Node} (hl : '\n' ∉ l)
    (hline : line = l ∨ line = l ++ ['\n']) (h : ofSource line = .ok (.program part)) :
    LineParses line part := by
  have htrim : Text.trim line = Text.trim l := by
    rcases hline with rfl | rfl
    · rfl
    · exact Text.trim_concat rfl l
  rcases ofSource_line hl hline h with ⟨hlead, rfl⟩ | ⟨n, hn, rfl⟩
  · refine ⟨h, .inl rfl, ?_, fun _ => List.forall_mem_nil _⟩
    intro hexit
    obtain ⟨front, t, back, hlead', -⟩ := Token.lead_of_exit hl (htrim ▸ hexit)
    rw [hlead] at hlead'
    simp at hlead'
  · refine ⟨h, .inr ⟨n, rfl⟩, ?_, ?_⟩
    · intro hexit
      obtain ⟨front, t, back, hlead, hkind, hfront, hback⟩ :=
        Token.lead_of_exit hl (htrim ▸ hexit)
      rw [hlead] at hn
      cases front with
      | nil =>
        rcases hn.first with hconst | hprint | ⟨-, a, us, rfl, hassign⟩
        · rw [hkind] at hconst
          cases hconst
        · rw [hkind] at hprint
          cases hprint
        · rw [(List.forall_mem_cons.mp hback).1] at hassign
          cases hassign
      | cons u front => exact hn.first_ne_illegal (List.forall_mem_cons.mp hfront).1
    · intro hblank
      have hillegal := Token.lead_of_blank hl (htrim ▸ hblank)
      rw [List.forall_mem_singleton]
      cases hlead : Token.lead l with
      | nil =>
        rw [hlead] at hn
        cases hn
        rfl
      | cons t ts =>
        rw [hlead] at hn hillegal
        exact absurd (List.forall_mem_cons.mp hillegal).1 hn.first_ne_illegal

/-- A program is the statements of its lines. -/
theorem exists_lineParses {source : List Char} {body : List Node}
    (h : ofSource source = .ok (.program body)) :
    ∃ parts, List.Forall₂ LineParses (Text.splitLines source) parts ∧ body = parts.flatten := by
  induction source using Text.lines_induction generalizing body with
  | last l hl =>
    by_cases hempty : l = []
    · subst hempty
      have hnone : ofSource [] = .ok (.program []) := by decide
      rw [hnone] at h
      cases h
      exact ⟨[], .nil, rfl⟩
    · rw [Text.splitLines_last hl hempty]
      exact ⟨[body], .cons (lineParses hl (.inl rfl) h) .nil, by simp⟩
  | newline l rest hl ih =>
    obtain ⟨front, back, hfront, hback, rfl⟩ := ofSource_newline h
    obtain ⟨parts, hparts, rfl⟩ := ih hback
    rw [Text.splitLines_newline hl]
    exact ⟨front :: parts, .cons (lineParses hl (.inr rfl) hfront) hparts, rfl⟩

end Program

/-! ## Statements one by one -/

namespace Effect

/-- The bindings behind a statement, which is dropped if it failed. -/
def surviving (before : Env) (e : Effect) : Env :=
  match e.result with
  | .ok _ => e.env
  | .error _ => before

/-- What there is to say of a statement: what it printed, and behind that its fault or its value. -/
def transcript (e : Effect) : String :=
  Event.outputOf e.events ++
    match e.result with
    | .ok .undefined => ""
    | .ok v => v.render ++ "\n"
    | .error (.fault f) => "Runtime error: " ++ f.text ++ "\n"
    | .error _ => ""

end Effect

namespace Node

/-- What each of several statements leaves behind, where those that fail are dropped. -/
def execEach (settings : Settings) (env : Env) : List Node → List Effect
  | [] => []
  | s :: ss => s.exec settings env :: execEach settings ((s.exec settings env).surviving env) ss

/-- The bindings behind statements, where those that fail are dropped. -/
def survivors (settings : Settings) (env : Env) (body : List Node) : Env :=
  body.foldl (fun env s => (s.exec settings env).surviving env) env

@[simp] theorem survivors_nil (settings : Settings) (env : Env) :
    survivors settings env [] = env := rfl

@[simp] theorem survivors_cons (settings : Settings) (env : Env) (s : Node) (ss : List Node) :
    survivors settings env (s :: ss) =
      survivors settings ((s.exec settings env).surviving env) ss := rfl

theorem survivors_append (settings : Settings) (env : Env) (ss us : List Node) :
    survivors settings env (ss ++ us) = survivors settings (survivors settings env ss) us :=
  List.foldl_append

theorem execEach_append (settings : Settings) (env : Env) (ss us : List Node) :
    execEach settings env (ss ++ us) =
      execEach settings env ss ++ execEach settings (survivors settings env ss) us := by
  induction ss generalizing env with
  | nil => rfl
  | cons s ss ih => simp [execEach, ih]

theorem exec_env_of_error {settings : Settings} {env : Env} {n : Node} {e : RunError}
    (h : (n.exec settings env).result = .error e) : (n.exec settings env).env = env := by
  cases n with
  | binding name expr =>
    simp only [exec] at h ⊢
    split at h
    · rfl
    · rfl
    · cases h
  | call name args =>
    simp only [exec] at h ⊢
    split at h <;> rfl
  | _ => rfl

theorem surviving_exec (settings : Settings) (env : Env) (n : Node) :
    (n.exec settings env).surviving env = (n.exec settings env).env := by
  unfold Effect.surviving
  split
  · rfl
  · next h => exact (exec_env_of_error h).symm

theorem wellFormed_survivors {settings : Settings} {env : Env} {body : List Node}
    (hbuiltins : settings.builtins = .standard) (henv : env.WellFormed)
    (hbody : ∀ s ∈ body, s.RegularStmt) : (survivors settings env body).WellFormed := by
  induction body generalizing env with
  | nil => exact henv
  | cons s ss ih =>
    rw [List.forall_mem_cons] at hbody
    rw [survivors_cons, surviving_exec]
    exact ih (safe_exec hbuiltins henv hbody.1).1 hbody.2

theorem safe_execEach {settings : Settings} {env : Env} {body : List Node}
    (hbuiltins : settings.builtins = .standard) (henv : env.WellFormed)
    (hbody : ∀ s ∈ body, s.RegularStmt) : ∀ e ∈ execEach settings env body, Safe e.result := by
  induction body generalizing env with
  | nil => exact List.forall_mem_nil _
  | cons s ss ih =>
    rw [List.forall_mem_cons] at hbody
    obtain ⟨henv', hresult⟩ := safe_exec hbuiltins henv hbody.1
    rw [execEach, surviving_exec]
    exact List.forall_mem_cons.mpr ⟨hresult, ih henv' hbody.2⟩

theorem execAll_env_of_ok {settings : Settings} {env : Env} {last v : Value} {body : List Node}
    (h : (execAll settings env last body).result = .ok v) :
    (execAll settings env last body).env = survivors settings env body := by
  induction body generalizing env last with
  | nil => rfl
  | cons s ss ih =>
    rw [survivors_cons, surviving_exec]
    simp only [execAll] at h ⊢
    cases hr : (s.exec settings env).result with
    | error e =>
      rw [hr] at h
      cases hr.symm.trans h
    | ok w =>
      rw [hr] at h
      exact ih h

end Node

/-! ## The loop -/

theorem Event.outputOf_parsed (notes : List Program.Note) :
    outputOf (notes.map Event.parsed) = "" := by
  induction notes with
  | nil => rfl
  | cons note notes ih => simp [ih, Event.output]

namespace Repl

/-- The loop has read all of its input and has done what the statements do one by one. -/
structure Result.Follows (settings : Settings) (env : Env) (body : List Node) (r : Result) :
    Prop where
  no_failure : r.failure = none
  all_read : r.rest = []
  env_eq : r.env = Node.survivors settings env body
  output_eq : Event.outputOf r.events =
    String.join ((Node.execEach settings env body).map Effect.transcript)

/-- A value that can be written is said as a transcript shows it. -/
theorem echo_of_legible {v : Value} (h : v.Legible) :
    Event.outputOf (echo v).events = Effect.transcript ⟨[], .empty, .ok v⟩ ∧
      failure? (echo v).result = none := by
  cases v <;>
    simp [echo, Value.print_of_legible h, Effect.transcript, Event.output, failure?, Outcome.of]

/-- What the loop answers to a line with one statement. -/
theorem answer_statement (level : Int) {settings : Settings} {env : Env} {line : List Char}
    {n : Node} (hline : Program.ofSource line = .ok (.program [n])) (henv : env.WellFormed)
    (hsafe : Safe (n.exec settings env).result) :
    (answer level settings env line).failure = none ∧
      (answer level settings env line).env = (n.exec settings env).env ∧
      Event.outputOf (answer level settings env line).events =
        (n.exec settings env).transcript := by
  simp only [answer, hline, Program.watched_run hline henv.legible]
  simp only [Node.run, Node.execAll]
  cases hr : (n.exec settings env).result with
  | ok v =>
    rw [hr] at hsafe
    obtain ⟨hsaid, hfailure⟩ := echo_of_legible (Value.WellFormed.legible hsafe)
    refine ⟨hfailure, rfl, ?_⟩
    simp [Event.outputOf_parsed, hsaid, Effect.transcript, hr, Event.output]
  | error e =>
    rw [hr] at hsafe
    cases e with
    | fault f =>
      simp [hr, RunError.report?, Event.outputOf_parsed, Effect.transcript, Event.output]
    | _ => exact hsafe.elim

/-- What the loop answers to a line of a program. -/
theorem answer_line (level : Int) {settings : Settings} {env : Env} {line : List Char}
    {part : List Node} (hbuiltins : settings.builtins = .standard) (henv : env.WellFormed)
    (hpart : ∀ n ∈ part, n.RegularStmt) (hline : Program.LineParses line part) :
    (answer level settings env line).failure = none ∧
      (answer level settings env line).env = Node.survivors settings env part ∧
      Event.outputOf (answer level settings env line).events =
        String.join ((Node.execEach settings env part).map Effect.transcript) := by
  rcases hline.single with rfl | ⟨n, rfl⟩
  · simp only [answer, hline.parses, Program.watched_run hline.parses henv.legible]
    simp [Node.run, Node.execAll, Event.outputOf_parsed, echo, failure?, Outcome.of, Node.execEach]
  · have hsafe := Node.safe_exec hbuiltins henv (List.forall_mem_singleton.mp hpart)
    obtain ⟨hfailure, henv', houtput⟩ := answer_statement level hline.parses henv hsafe.2
    refine ⟨hfailure, ?_, ?_⟩
    · rw [henv', Node.survivors_cons, Node.surviving_exec, Node.survivors_nil]
    · simp [houtput, Node.execEach]

/-- A line that is skipped would have done nothing. -/
theorem skipped_line (settings : Settings) (env : Env) {part : List Node}
    (hsingle : part = [] ∨ ∃ n, part = [n]) (hblank : ∀ n ∈ part, n = .blank) :
    Node.survivors settings env part = env ∧
      Event.outputOf [] =
        String.join ((Node.execEach settings env part).map Effect.transcript) := by
  rcases hsingle with rfl | ⟨n, rfl⟩
  · exact ⟨rfl, rfl⟩
  · obtain rfl := List.forall_mem_singleton.mp hblank
    refine ⟨rfl, ?_⟩
    simp [Node.execEach, Node.exec, Effect.transcript]

theorem Result.Follows.after {settings : Settings} {env : Env} {part body : List Node} {r : Result}
    {events : List Event} (hr : r.Follows settings (Node.survivors settings env part) body)
    (hevents : Event.outputOf events =
      String.join ((Node.execEach settings env part).map Effect.transcript)) :
    (r.after events).Follows settings env (part ++ body) where
  no_failure := hr.no_failure
  all_read := hr.all_read
  env_eq := by rw [Node.survivors_append, ← hr.env_eq]; rfl
  output_eq := by
    rw [Node.execEach_append, List.map_append, String.join_append, ← hevents, ← hr.output_eq]
    exact Event.outputOf_append _ _

/-- The loop over lines of which each is a part of the program. -/
theorem loop_follows (level : Int) {settings : Settings} {env : Env} {lines : List (List Char)}
    {parts : List (List Node)} (hbuiltins : settings.builtins = .standard) (henv : env.WellFormed)
    (hlines : List.Forall₂ Program.LineParses lines parts)
    (hparts : ∀ n ∈ parts.flatten, n.RegularStmt) :
    (loop level settings false env lines).Follows settings env parts.flatten := by
  induction hlines generalizing env with
  | nil => exact ⟨rfl, rfl, rfl, by simp [loop, prompted, farewell, Node.execEach]⟩
  | @cons line part lines parts hline _ ih =>
    rw [List.flatten_cons, List.forall_mem_append] at hparts
    have hrest := ih (Node.wellFormed_survivors hbuiltins henv hparts.1) hparts.2
    rw [List.flatten_cons]
    simp only [loop, turn, Request.of, if_neg hline.not_exit]
    by_cases hblank : Text.trim line = []
    · obtain ⟨hsame, hsilent⟩ := skipped_line settings env hline.single (hline.blank hblank)
      have hskip := hrest.after hsilent
      rw [hsame] at hskip
      rw [if_pos hblank]
      exact hskip
    · obtain ⟨hfailure, henv', houtput⟩ := answer_line level hbuiltins henv hparts.1 hline
      rw [if_neg hblank]
      simp only [hfailure, henv']
      exact hrest.after houtput

/-- The loop over a program that parses reads all of it and fails nowhere. Its bindings and its output
    are those of the statements, executed one by one, where statements that fail are dropped and
    fail by faults only; and if the program as a whole runs to its end, it ends with these
    bindings. All this holds under a trace of any level. -/
theorem run_follows_program (level : Int) (dialect : Dialect) (source : List Char)
    (body : List Node) (h : Program.ofSource source = .ok (.program body)) :
    (run level (.new dialect) false source).Follows (.new dialect) .empty body ∧
      (∀ e ∈ Node.execEach (.new dialect) .empty body, ∀ error, e.result = .error error →
        ∃ fault, error = .fault fault) ∧
      ∀ v, ((Node.program body).run (.new dialect) .empty).result = .ok v →
        ((Node.program body).run (.new dialect) .empty).env =
          (run level (.new dialect) false source).env := by
  have hregular : ∀ n ∈ body, n.RegularStmt := by
    cases Program.regular_of_ofSource h with
    | program hbody => exact hbody
  have hfollows : (run level (.new dialect) false source).Follows (.new dialect) .empty body := by
    obtain ⟨parts, hparts, rfl⟩ := Program.exists_lineParses h
    exact loop_follows level rfl Env.wellFormed_empty hparts hregular
  refine ⟨hfollows, ?_, ?_⟩
  · intro e he error herror
    have hsafe := Node.safe_execEach rfl Env.wellFormed_empty hregular e he
    rw [herror] at hsafe
    cases error with
    | fault f => exact ⟨f, rfl⟩
    | _ => exact hsafe.elim
  · intro v hv
    rw [hfollows.env_eq]
    exact Node.execAll_env_of_ok hv

/-- A comment, a line of white space, a print that fails at its second argument, and a last line
    without a newline. -/
theorem run_follows_failing_print :
    (run 2 (.new .legacy) false "x = 6 # six\n \t\nprint x, x / 0\ny = x <= 7".toList).Follows
      (.new .legacy) .empty
      [.ofBinding "x" (.literal (.int 6)), .blank,
        .ofPrint [.ofName "x", .ofBinary .div (.ofName "x") (.literal (.int 0))],
        .ofBinding "y" (.ofBinary .le (.ofName "x") (.literal (.int 7)))] ∧
    Event.outputOf (run 2 (.new .legacy) false
        "x = 6 # six\n \t\nprint x, x / 0\ny = x <= 7".toList).events =
      "6\n6\nRuntime error: DivisionByZero: integer division by zero\nfalse\n" :=
  ⟨(run_follows_program 2 .legacy _ _ (by decide +kernel)).1, by decide +kernel⟩

end Repl

end LineScript
