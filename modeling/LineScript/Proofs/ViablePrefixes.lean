-- SUMMARY: A parse error names the first token that no program can have where it stands.
import LineScript.Proofs.Lines

/-!
# Viable prefixes

Tokens are a viable prefix if some tokens behind them make a list that the parser accepts. From
every state inside a statement the parser can still come to its end, an operand first and then the
open parentheses: so the tokens in front of an error are a viable prefix, and with the token that
the error names they are none. A name that starts a line is the one exception, since the parser
names it where the token behind it is missing or wrong.
-/

namespace LineScript

open Grammar

/-! ## Accepted lists -/

namespace Program

/-- The parser accepts the tokens. -/
def Accepts (tokens : List Token) : Prop := ∃ tree, ofTokens tokens = .ok tree

/-- Some tokens behind these make a list that the parser accepts. -/
def Viable (tokens : List Token) : Prop := ∃ more, Accepts (tokens ++ more)

theorem accepts_iff {tokens : List Token} :
    Accepts tokens ↔ ∃ body, Body (stream tokens) body := by
  simp only [Accepts, ofTokens_eq_ok_iff, Derives]
  constructor
  · rintro ⟨_, body, hbody, -⟩
    exact ⟨body, hbody⟩
  · rintro ⟨body, hbody⟩
    exact ⟨_, body, hbody, rfl⟩

/-- A line is accepted alone, and what follows it as if it stood alone. -/
theorem accepts_line_iff {ts more : List Token} {stop : Token}
    (hts : ∀ t ∈ ts, t.kind.endsStatement = false) (hstop : stop.kind.endsStatement)
    (hfirst : ts ≠ [] ∨ stop.kind ≠ .eof) :
    Accepts (ts ++ stop :: more) ↔ (∃ n, Stmt ts n) ∧ Accepts more := by
  have hstream : stream (ts ++ stop :: more) = ts ++ₛ Stream'.cons stop (stream more) := by
    rw [stream, Stream'.append_append_stream]
    rfl
  have hhead : (ts ++ₛ Stream'.cons stop (stream more)).head.kind ≠ .eof := by
    by_cases hne : ts = []
    · subst hne
      exact hfirst.resolve_left (not_not.mpr rfl)
    · exact Line.head_ne_eof hne hts
  simp only [accepts_iff, hstream, body_of_line hts hstop hhead]
  constructor
  · rintro ⟨_, n, rest, hn, hrest, rfl⟩
    exact ⟨⟨n, hn⟩, rest, hrest⟩
  · rintro ⟨⟨n, hn⟩, rest, hrest⟩
    exact ⟨_, n, rest, hn, hrest, rfl⟩

/-- An end of input at the end of a list is there anyway. -/
theorem accepts_concat_nowhere {tokens : List Token} :
    Accepts (tokens ++ [.nowhere]) ↔ Accepts tokens := by
  have hstream : stream (tokens ++ [.nowhere]) = stream tokens := by
    rw [stream, Stream'.append_append_stream]
    exact congrArg (tokens ++ₛ ·) (Stream'.const_eq Token.nowhere).symm
  rw [accepts_iff, accepts_iff, hstream]

theorem accepts_of_stmt {ts : List Token} {n : Node} (h : Stmt ts n) : Accepts ts := by
  have hempty : Accepts [] := accepts_iff.mpr ⟨[], .done rfl⟩
  by_cases hne : ts = []
  · subst hne
    exact hempty
  · rw [← accepts_concat_nowhere, accepts_line_iff h.not_endsStatement rfl (.inl hne)]
    exact ⟨⟨n, h⟩, hempty⟩

/-- Behind every list comes a token that ends a statement. -/
theorem exists_first_stop (ts : List Token) :
    ∃ line stop rest, ts ++ [.nowhere] = line ++ stop :: rest ∧
      (∀ t ∈ line, t.kind.endsStatement = false) ∧ stop.kind.endsStatement := by
  induction ts with
  | nil => exact ⟨[], .nowhere, [], rfl, List.forall_mem_nil _, rfl⟩
  | cons t ts ih =>
    by_cases ht : t.kind.endsStatement
    · exact ⟨[], t, ts ++ [.nowhere], rfl, List.forall_mem_nil _, ht⟩
    · obtain ⟨line, stop, rest, hsplit, hline, hstop⟩ := ih
      refine ⟨t :: line, stop, rest, by rw [List.cons_append, hsplit, List.cons_append], ?_, hstop⟩
      exact List.forall_mem_cons.mpr ⟨by simpa using ht, hline⟩

theorem Viable.exists_stmt {ts : List Token} (h : Viable ts) (hne : ts ≠ [])
    (hts : ∀ t ∈ ts, t.kind.endsStatement = false) : ∃ more n, Stmt (ts ++ more) n := by
  obtain ⟨more, haccepts⟩ := h
  obtain ⟨line, stop, rest, hsplit, hline, hstop⟩ := exists_first_stop more
  have hboth : ∀ t ∈ ts ++ line, t.kind.endsStatement = false :=
    List.forall_mem_append.mpr ⟨hts, hline⟩
  rw [← accepts_concat_nowhere, List.append_assoc, hsplit, ← List.append_assoc,
    accepts_line_iff hboth hstop (.inl (by simp [hne]))] at haccepts
  obtain ⟨⟨n, hn⟩, -⟩ := haccepts
  exact ⟨line, n, hn⟩

/-- The tokens before can be continued, but not by the token. -/
structure Offends (before : List Token) (t : Token) : Prop where
  viable : Viable before
  not_viable : ¬ Viable (before ++ [t])

/-- One of the tokens offends, behind others of them. -/
def Behind (tokens : List Token) (t : Token) : Prop :=
  ∃ before after, tokens = before ++ t :: after ∧ before ≠ [] ∧ Offends before t

/-- A line starts behind the tokens. -/
def StartsLine (before : List Token) : Prop := ∀ u, before.getLast? = some u → u.kind = .eol

/-- The token is the first one that cannot stand where it stands; but a name at the start of a line
    is blamed for the token behind it, which is no assignment sign. -/
structure Blames (before : List Token) (t : Token) (after : List Token) : Prop where
  offends : ¬ (StartsLine before ∧ t.kind = .ident) → Offends before t
  early : StartsLine before → t.kind = .ident →
    ∃ u rest, after = u :: rest ∧ u.kind ≠ .assign ∧ Offends (before ++ [t]) u

theorem Offends.blames {before : List Token} {t : Token} (h : Offends before t)
    (hne : before ≠ []) (hbefore : ∀ u ∈ before, u.kind.endsStatement = false)
    (after : List Token) : Blames before t after := by
  refine ⟨fun _ => h, fun hstart => ?_⟩
  have hend := hbefore _ (List.getLast_mem hne)
  rw [hstart _ (List.getLast?_eq_some_getLast hne)] at hend
  cases hend

theorem Blames.append {before after : List Token} {t : Token} (h : Blames before t after)
    (rest : List Token) : Blames before t (after ++ rest) := by
  refine ⟨h.offends, fun hstart hident => ?_⟩
  obtain ⟨u, us, rfl, hu, hoffends⟩ := h.early hstart hident
  exact ⟨u, us ++ rest, rfl, hu, hoffends⟩

end Program

namespace Statement

/-! ## Statements and what they refuse -/

/-- No statement has the token behind the tokens before, be it the end or not. -/
def Refuses (before : List Token) (t : Token) : Prop :=
  if t.kind.endsStatement then ∀ n, ¬ Stmt before n else ∀ more n, ¬ Stmt (before ++ t :: more) n

theorem Refuses.offends {before more : List Token} {t : Token} {n : Node} (h : Refuses before t)
    (hbefore : ∀ u ∈ before, u.kind.endsStatement = false) (hfirst : before ≠ [] ∨ t.kind ≠ .eof)
    (hstmt : Stmt (before ++ more) n) : Program.Offends before t := by
  refine ⟨⟨more, Program.accepts_of_stmt hstmt⟩, fun hviable => ?_⟩
  by_cases ht : t.kind.endsStatement
  · obtain ⟨more, haccepts⟩ := hviable
    rw [List.append_assoc, List.singleton_append,
      Program.accepts_line_iff hbefore ht hfirst] at haccepts
    obtain ⟨⟨n, hn⟩, -⟩ := haccepts
    rw [Refuses, if_pos ht] at h
    exact h n hn
  · have hline : ∀ u ∈ before ++ [t], u.kind.endsStatement = false :=
      List.forall_mem_append.mpr ⟨hbefore, List.forall_mem_singleton.mpr (by simpa using ht)⟩
    obtain ⟨more, n, hn⟩ := hviable.exists_stmt (by simp) hline
    rw [List.append_assoc, List.singleton_append] at hn
    rw [Refuses, if_neg ht] at h
    exact h more n hn

/-! ## Completions -/

theorem close_cases (e : Node) (stack : List Frame) :
    ∃ expr, close e stack = (expr, []) ∨
      ∃ rest, close e stack = (expr, .group :: rest) ∧ rest.length < stack.length := by
  induction stack generalizing e with
  | nil => exact ⟨e, .inl rfl⟩
  | cons frame stack ih =>
    -- Closing a frame that is no group goes on with the rest of the stack.
    have hbelow : ∀ e, ∃ expr, close e stack = (expr, []) ∨
        ∃ rest, close e stack = (expr, .group :: rest) ∧ rest.length < (frame :: stack).length := by
      intro e
      obtain ⟨expr, h⟩ := ih e
      exact ⟨expr, h.imp_right fun ⟨rest, hclose, hlength⟩ =>
        ⟨rest, hclose, Nat.lt_succ_of_lt hlength⟩⟩
    cases frame with
    | unary op => exact hbelow (.ofUnary op e)
    | group => exact ⟨e, .inr ⟨stack, rfl, Nat.lt_succ_self _⟩⟩
    | binary left op => exact hbelow (.ofBinary op left e)

theorem exists_fill (e : Node) (head : Head) (stack : List Frame) :
    ∃ operand rest, fill e head stack = .having operand head rest ∧
      rest.length ≤ stack.length := by
  induction stack generalizing e with
  | nil => exact ⟨e, [], rfl, Nat.le_refl _⟩
  | cons frame stack ih =>
    cases frame with
    | unary op =>
      obtain ⟨operand, rest, hfill, hlength⟩ := ih (.ofUnary op e)
      exact ⟨operand, rest, hfill, Nat.le_succ_of_le hlength⟩
    | group => exact ⟨e, .group :: stack, rfl, Nat.le_refl _⟩
    | binary left op => exact ⟨e, .binary left op :: stack, rfl, Nat.le_refl _⟩

/-- Behind an operand it is enough to close the open parentheses. -/
theorem exists_parseFrom_having (stop : Token) (e : Node) (head : Head) (stack : List Frame) :
    ∃ more n, parseFrom stop (.having e head stack) more = .ok n := by
  -- A parenthesis takes its group off the stack and puts nothing on it.
  induction hlength : stack.length using Nat.strongRecOn generalizing e stack with
  | ind length ih =>
    obtain ⟨expr, hclose | ⟨rest, hclose, hshorter⟩⟩ := close_cases e stack
    · refine ⟨[], head.complete expr, ?_⟩
      simp [parseFrom, State.finish, hclose, Except.mapError]
    · obtain ⟨operand, stack', hfill, hle⟩ := exists_fill expr head rest
      have hstep : (State.having e head stack).step ⟨.rparen, ")", 0, 0⟩ =
          .ok (.having operand head stack') := by
        simp [State.step, BinaryOp.ofKind?, State.ending, hclose, hfill]
      obtain ⟨more, n, hrun⟩ := ih stack'.length (by omega) operand stack' rfl
      exact ⟨_ :: more, n, (parseFrom_cons more hstep).trans hrun⟩

/-- From every state the parser can still come to a statement. -/
theorem exists_parseFrom (stop : Token) (state : State) :
    ∃ more n, parseFrom stop state more = .ok n := by
  cases state with
  | having e head stack => exact exists_parseFrom_having stop e head stack
  | wanting head stack =>
    obtain ⟨operand, rest, hfill, -⟩ := exists_fill (.ofName "x") head stack
    obtain ⟨more, n, hrun⟩ := exists_parseFrom_having stop operand head rest
    have hstep : (State.wanting head stack).step ⟨.ident, "x", 0, 0⟩ =
        .ok (.having operand head rest) := congrArg Except.ok hfill
    exact ⟨_ :: more, n, (parseFrom_cons more hstep).trans hrun⟩

/-! ## Where a run fails -/

/-- A run that fails comes to a state first that fails at the next token or at the end. -/
theorem exists_state_of_parseFrom {stop : Token} {start : State} {ts : List Token} {stuck : Stuck}
    (h : parseFrom stop start ts = .error stuck) :
    ∃ done state, ts = done ++ stuck.rest ∧
      (∀ stop' more, parseFrom stop' start (done ++ more) = parseFrom stop' state more) ∧
      ((stuck.rest = [] ∧ state.finish stop = .error stuck.error) ∨
        ∃ t rest, stuck.rest = t :: rest ∧ state.step t = .error stuck.error) := by
  induction ts generalizing start with
  | nil =>
    cases hf : start.finish stop with
    | ok n => simp [parseFrom, hf, Except.mapError] at h
    | error e =>
      simp only [parseFrom, hf, Except.mapError, Except.error.injEq] at h
      subst h
      exact ⟨[], start, rfl, fun _ _ => rfl, .inl ⟨rfl, hf⟩⟩
  | cons t ts ih =>
    simp only [parseFrom] at h
    split at h
    · next next hstep =>
      obtain ⟨done, state, rfl, hrun, hfails⟩ := ih h
      refine ⟨t :: done, state, rfl, fun stop' more => ?_, hfails⟩
      rw [List.cons_append, parseFrom_cons _ hstep, hrun]
    · next e hstep =>
      cases h
      exact ⟨[], start, rfl, fun _ _ => rfl, .inr ⟨t, ts, rfl, hstep⟩⟩

theorem number_ne_unexpected {t u : Token} {expected : Option Expected} :
    number t ≠ .error (.unexpected u expected) := by
  unfold number
  split
  · exact nofun
  · split <;> exact nofun

/-- The tokens bring the parser into the state, from the start of a statement. -/
def ComesTo (before : List Token) (state : State) : Prop :=
  ∀ stop next ts, parse ⟨before ++ ts, stop, next⟩ = parseFrom stop state ts

section ComesTo

variable {before : List Token} {state : State} {t : Token} {e : ParseError}
  (h : ComesTo before state) (hne : before ≠ [])
  (hbefore : ∀ u ∈ before, u.kind.endsStatement = false)

include h hne hbefore

/-- A token offends that no statement has there. -/
theorem ComesTo.offends (hrefuses : Refuses before t) : Program.Offends before t := by
  obtain ⟨more, n, hmore⟩ := exists_parseFrom t state
  have hstmt : Stmt (before ++ more) n := stmt_of_parse ((h t t more).trans hmore)
  exact hrefuses.offends hbefore (.inl hne) hstmt

/-- A token that ends a statement offends where the parser cannot finish. -/
theorem ComesTo.offends_of_finish (ht : t.kind.endsStatement)
    (hfinish : state.finish t = .error e) : Program.Offends before t := by
  refine h.offends hne hbefore ?_
  rw [Refuses, if_pos ht]
  intro m hm
  have hok : parse ⟨before, t, t⟩ = .ok m := parse_eq_ok_iff.mpr hm
  have hend := h t t []
  rw [List.append_nil, hok, parseFrom, hfinish] at hend
  cases hend

/-- Any other token offends where the parser cannot go on with it. -/
theorem ComesTo.offends_of_step (ht : t.kind.endsStatement = false)
    (hstep : state.step t = .error e) : Program.Offends before t := by
  refine h.offends hne hbefore ?_
  rw [Refuses, if_neg (by simp [ht])]
  intro more m hm
  have hok : parse ⟨before ++ t :: more, t, t⟩ = .ok m := parse_eq_ok_iff.mpr hm
  rw [h, parseFrom, hstep] at hok
  cases hok

end ComesTo

/-- If the parser fails behind an opening, then at a token that offends. -/
theorem ComesTo.behind {front ts : List Token} {start : State} {stop t : Token} {stuck : Stuck}
    {expected : Option Expected} (hfront : ComesTo front start) (hne : front ≠ [])
    (hline : ∀ u ∈ front ++ ts, u.kind.endsStatement = false) (hstop : stop.kind.endsStatement)
    (h : parseFrom stop start ts = .error stuck) (herror : stuck.error = .unexpected t expected) :
    Program.Behind (front ++ ts ++ [stop]) t := by
  obtain ⟨done, state, rfl, hrun, hfails⟩ := exists_state_of_parseFrom h
  have hcomes : ComesTo (front ++ done) state := by
    intro stop' next more
    rw [List.append_assoc, hfront, hrun]
  have hne' : front ++ done ≠ [] := List.append_ne_nil_of_left_ne_nil hne done
  rw [← List.append_assoc, List.forall_mem_append] at hline
  rcases hfails with ⟨hrest, hfinish⟩ | ⟨u, rest, hrest, hstep⟩
  · obtain ⟨_, hstuck⟩ := error_of_finish hfinish
    obtain ⟨rfl, -⟩ := ParseError.unexpected.inj (herror.symm.trans hstuck)
    exact ⟨front ++ done, [], by rw [hrest, List.append_nil], hne',
      hcomes.offends_of_finish hne' hline.1 hstop hfinish⟩
  · rw [hrest, List.forall_mem_cons] at hline
    -- The error of a step is about the token of the step, unless that is a bad numeral.
    obtain rfl : u = t := by
      rcases error_of_step hstep with ⟨-, hnumber⟩ | ⟨_, hstuck⟩
      · exact absurd (hnumber.trans (congrArg _ herror)) number_ne_unexpected
      · exact (ParseError.unexpected.inj (herror.symm.trans hstuck)).1.symm
    exact ⟨front ++ done, rest ++ [stop], by simp [hrest], hne',
      hcomes.offends_of_step hne' hline.1 hline.2.1 hstep⟩

/-! ## Openings -/

theorem Refuses.of_incomplete {before : List Token} {t : Token} (h : ∀ n, ¬ Stmt before n)
    (hnext : ∀ more n, ¬ Stmt (before ++ t :: more) n) : Refuses before t := by
  unfold Refuses
  split
  · exact h
  · exact hnext

theorem refuses_const {c u : Token} (hc : c.kind = .const) (hu : u.kind ≠ .ident) :
    Refuses [c] u := by
  refine .of_incomplete (fun n h => ?_) fun more n h => ?_
  · cases h with
    | print hp => simp [hc] at hp
  · cases h with
    | const _ hn => exact hu hn
    | binding hn => simp [hc] at hn
    | print hp => simp [hc] at hp

theorem refuses_const_name {c n u : Token} (hc : c.kind = .const) (hu : u.kind ≠ .assign) :
    Refuses [c, n] u := by
  refine .of_incomplete (fun m h => ?_) fun more m h => ?_
  · cases h with
    | binding hn => simp [hc] at hn
    | print hp => simp [hc] at hp
  · cases h with
    | const _ _ ha => exact hu ha
    | binding hn => simp [hc] at hn
    | print hp => simp [hc] at hp

theorem refuses_name {n u : Token} (hn : n.kind = .ident) (hu : u.kind ≠ .assign) :
    Refuses [n] u := by
  refine .of_incomplete (fun m h => ?_) fun more m h => ?_
  · cases h with
    | print hp => simp [hn] at hp
  · cases h with
    | const hc => simp [hn] at hc
    | binding _ ha => exact hu ha
    | print hp => simp [hn] at hp

theorem refuses_start {t : Token} (hend : t.kind.endsStatement = false) (hconst : t.kind ≠ .const)
    (hprint : t.kind ≠ .print) (hident : t.kind ≠ .ident) : Refuses [] t := by
  rw [Refuses, if_neg (by simp [hend])]
  intro more n h
  cases h with
  | const hc => exact hconst hc
  | binding hn => exact hident hn
  | print hp => exact hprint hp

/-- A binding fails at its name, at its assignment sign, or in its expression. -/
theorem error_of_parseBinding {stop : Token} {ts : List Token} {stuck : Stuck}
    (hstop : stop.kind.endsStatement) (h : parseBinding stop ts = .error stuck) :
    (∃ u rest, ts ++ [stop] = u :: rest ∧ u.kind ≠ .ident ∧
      stuck.error = .unexpected u (some .identifier)) ∨
    (∃ n u rest, ts ++ [stop] = n :: u :: rest ∧ n.kind = .ident ∧ u.kind ≠ .assign ∧
      stuck.error = .unexpected u (some .assign)) ∨
    ∃ n a body, ts = n :: a :: body ∧ n.kind = .ident ∧ a.kind = .assign ∧
      parseFrom stop (.wanting (.binding n.text) []) body = .error stuck := by
  have hident : stop.kind ≠ .ident := Token.kind_ne_of_endsStatement hstop rfl
  have hassign : stop.kind ≠ .assign := Token.kind_ne_of_endsStatement hstop rfl
  unfold parseBinding at h
  split at h
  · cases h
    exact .inl ⟨stop, [], rfl, hident, rfl⟩
  · next name =>
    split at h
    · next hname =>
      cases h
      exact .inr (.inl ⟨name, stop, [], rfl, hname, hassign, rfl⟩)
    · next hname =>
      cases h
      exact .inl ⟨name, [stop], rfl, hname, rfl⟩
  · next name assign body =>
    split at h
    · next hname =>
      cases h
      exact .inl ⟨name, assign :: (body ++ [stop]), rfl, hname, rfl⟩
    · next hname =>
      split at h
      · next hsign =>
        cases h
        exact .inr (.inl ⟨name, assign, body ++ [stop], rfl, not_not.mp hname, hsign, rfl⟩)
      · next hsign =>
        exact .inr (.inr ⟨name, assign, body, rfl, not_not.mp hname, not_not.mp hsign, h⟩)

theorem mem_of_concat_eq {ts before after : List Token} {stop t u : Token}
    (h : ts ++ [stop] = before ++ t :: after) (hu : u ∈ before) : u ∈ ts := by
  have hdrop := congrArg List.dropLast h
  rw [List.dropLast_concat, List.dropLast_append_cons] at hdrop
  rw [hdrop]
  exact List.mem_append_left _ hu

theorem exists_of_isRebinding {t : Token} {ts : List Token} (h : isRebinding (t :: ts)) :
    ∃ a body, ts = a :: body ∧ a.kind = .assign := by
  cases ts with
  | nil => cases h
  | cons a body => exact ⟨a, body, rfl, by simpa [isRebinding] using h⟩

theorem comesTo_const {c n a : Token} (hc : c.kind = .const) (hn : n.kind = .ident)
    (ha : a.kind = .assign) : ComesTo [c, n, a] (.wanting (.binding n.text) []) := by
  intro stop next ts
  simp [parse, hc, parseBinding, hn, ha]

theorem comesTo_binding {n a : Token} (hn : n.kind = .ident) (ha : a.kind = .assign) :
    ComesTo [n, a] (.wanting (.binding n.text) []) := by
  intro stop next ts
  simp [parse, parseBinding, isRebinding, hn, ha]

theorem comesTo_print {p : Token} (hp : p.kind = .print) :
    ComesTo [p] (.wanting (.print []) []) := by
  intro stop next ts
  simp [parse, hp]

/-- A name, an assignment sign and a name again. -/
def sampleBinding : List Token := [⟨.ident, "x", 0, 0⟩, ⟨.assign, "=", 0, 0⟩, ⟨.ident, "x", 0, 0⟩]

theorem offends_of_const {c stop t : Token} {ts : List Token} {stuck : Stuck}
    {expected : Option Expected} (hc : c.kind = .const)
    (hline : ∀ u ∈ c :: ts, u.kind.endsStatement = false) (hstop : stop.kind.endsStatement)
    (h : parseBinding stop ts = .error stuck) (herror : stuck.error = .unexpected t expected) :
    Program.Behind (c :: ts ++ [stop]) t := by
  have hcend : ∀ u ∈ [c], u.kind.endsStatement = false :=
    List.forall_mem_singleton.mpr (List.forall_mem_cons.mp hline).1
  rcases error_of_parseBinding hstop h with ⟨u, rest, hts, hu, hstuck⟩ |
    ⟨n, u, rest, hts, hn, hu, hstuck⟩ | ⟨n, a, body, rfl, hn, ha, hrun⟩
  · obtain ⟨rfl, -⟩ := ParseError.unexpected.inj (herror.symm.trans hstuck)
    have hstmt : Stmt ([c] ++ sampleBinding) (.ofBinding "x" (.ofName "x")) :=
      .const hc rfl rfl (.primary (.name rfl))
    exact ⟨[c], rest, congrArg (c :: ·) hts, by simp,
      (refuses_const hc hu).offends hcend (.inl (by simp)) hstmt⟩
  · obtain ⟨rfl, -⟩ := ParseError.unexpected.inj (herror.symm.trans hstuck)
    have hstmt : Stmt ([c, n] ++ sampleBinding.tail) (.ofBinding n.text (.ofName "x")) :=
      .const hc hn rfl (.primary (.name rfl))
    have hnend : ∀ v ∈ [c, n], v.kind.endsStatement = false := by
      simp [hc, hn, Token.Kind.endsStatement]
    exact ⟨[c, n], rest, congrArg (c :: ·) hts, by simp,
      (refuses_const_name hc hu).offends hnend (.inl (by simp)) hstmt⟩
  · exact (comesTo_const hc hn ha).behind (by simp) hline hstop hrun herror

/-- A token that opens no statement is to blame itself, unless it is a name. -/
theorem blames_of_start {c stop : Token} {ts : List Token}
    (hend : c.kind.endsStatement = false) (hstop : stop.kind.endsStatement)
    (hconst : c.kind ≠ .const) (hprint : c.kind ≠ .print)
    (hname : ¬ (c.kind = .ident ∧ isRebinding (c :: ts))) :
    Program.Blames [] c (ts ++ [stop]) := by
  refine ⟨fun hident => ?_, fun _ hident => ?_⟩
  · have hne : c.kind ≠ .ident := fun hk => hident ⟨nofun, hk⟩
    have heof : c.kind ≠ .eof := (Token.kind_ne_of_endsStatement rfl hend).symm
    have hblank : Stmt ([] ++ []) .blank := .blank
    exact (refuses_start hend hconst hprint hne).offends (List.forall_mem_nil _) (.inr heof) hblank
  · have hnext : ∃ u rest, ts ++ [stop] = u :: rest ∧ u.kind ≠ .assign := by
      cases ts with
      | nil => exact ⟨stop, [], rfl, Token.kind_ne_of_endsStatement hstop rfl⟩
      | cons a ts =>
        refine ⟨a, ts ++ [stop], rfl, fun hk => hname ⟨hident, ?_⟩⟩
        simp [isRebinding, hk]
    obtain ⟨u, rest, hsplit, hu⟩ := hnext
    have hstmt : Stmt ([c] ++ sampleBinding.tail) (.ofBinding c.text (.ofName "x")) :=
      .binding hident rfl (.primary (.name rfl))
    exact ⟨u, rest, hsplit, hu, (refuses_name hident hu).offends
      (List.forall_mem_singleton.mpr hend) (.inl (by simp)) hstmt⟩

/-- The error of a line blames a token of the line or the one that ends it. -/
theorem blames_of_parse {l : Line} {t : Token} {stuck : Stuck} {expected : Option Expected}
    (hline : ∀ u ∈ l.tokens, u.kind.endsStatement = false) (hstop : l.stop.kind.endsStatement)
    (h : parse l = .error stuck) (herror : stuck.error = .unexpected t expected) :
    ∃ before after, l.tokens ++ [l.stop] = before ++ t :: after ∧
      Program.Blames before t after := by
  obtain ⟨tokens, stop, next⟩ := l
  simp only at hline hstop ⊢
  -- What is left is to find the offending token, unless it is the first of the line.
  suffices hfound : Program.Behind (tokens ++ [stop]) t ∨
      ∃ after, tokens ++ [stop] = t :: after ∧ Program.Blames [] t after by
    rcases hfound with ⟨before, after, hsplit, hne, hoffends⟩ | ⟨after, hsplit, hblames⟩
    · refine ⟨before, after, hsplit, hoffends.blames hne ?_ after⟩
      exact fun u hu => hline u (mem_of_concat_eq hsplit hu)
    · exact ⟨[], after, hsplit, hblames⟩
  cases tokens with
  | nil => cases h
  | cons c ts =>
    simp only [parse] at h
    split at h
    · next hc =>
      exact .inl (offends_of_const hc hline hstop h herror)
    · next hconst =>
      split at h
      · next hname =>
        simp only [Bool.and_eq_true, decide_eq_true_eq] at hname
        obtain ⟨a, body, rfl, ha⟩ := exists_of_isRebinding hname.2
        simp only [parseBinding, hname.1, ha, ne_eq, not_true_eq_false, if_false] at h
        exact .inl ((comesTo_binding hname.1 ha).behind (by simp) hline hstop h herror)
      · next hname =>
        split at h
        · next hp =>
          exact .inl ((comesTo_print hp).behind (by simp) hline hstop h herror)
        · next hprint =>
          cases h
          obtain ⟨rfl, -⟩ := ParseError.unexpected.inj herror
          refine .inr ⟨ts ++ [stop], rfl, ?_⟩
          exact blames_of_start (List.forall_mem_cons.mp hline).1 hstop hconst hprint
            (by simpa using hname)

end Statement

namespace Program

/-! ## Behind a line -/

/-- The tokens are the same up to their positions. -/
def Same (t u : Token) : Prop := t.kind = u.kind ∧ t.text = u.text

theorem relocates_same : Token.Relocates Same := ⟨And.left, And.right⟩

theorem accepts_congr {ts us : List Token} (h : List.Forall₂ Same ts us) :
    Accepts ts ↔ Accepts us := by
  have hpad : ∀ ts : List Token, Accepts ts ↔
      ∃ body, statements (Line.cutFrom .nowhere [] ts) = .ok body := by
    intro ts
    simp only [accepts_iff, statements_eq_ok_iff, Statement.parse_eq_ok_iff,
      Line.forall₂_cutFrom_iff .nowhere (List.forall_mem_nil _)]
    rfl
  have hnowhere : Same .nowhere .nowhere := ⟨rfl, rfl⟩
  have hagree := agree_statements relocates_same
    (Line.relocated_cutFrom relocates_same hnowhere .nil h)
  simp only [hpad, hagree.eq_ok_iff]

theorem viable_congr {ts us : List Token} (h : List.Forall₂ Same ts us) :
    Viable ts ↔ Viable us := by
  have hmore : ∀ more : List Token, List.Forall₂ Same more more :=
    fun more => List.forall₂_same.mpr fun t _ => ⟨rfl, rfl⟩
  simp only [Viable, accepts_congr (List.rel_append h (hmore _))]

section Behind

variable {line : List Token} {n : Node} (hn : Stmt line n) {eol : Token} (heol : eol.kind = .eol)
  (k : Nat)

include hn heol

/-- A statement and the end of its line do not matter for what follows. -/
theorem viable_behind (ts : List Token) :
    Viable (line ++ eol :: ts.map (Token.down k)) ↔ Viable ts := by
  have hstop : eol.kind.endsStatement := by simp [heol, Token.Kind.endsStatement]
  have hdown : List.Forall₂ Same (ts.map (Token.down k)) ts := by
    rw [List.forall₂_map_left_iff, List.forall₂_same]
    exact fun t _ => ⟨rfl, rfl⟩
  rw [← viable_congr hdown]
  simp only [Viable, List.append_assoc, List.cons_append,
    accepts_line_iff hn.not_endsStatement hstop (.inr (by simp [heol]))]
  exact exists_congr fun more => and_iff_right ⟨n, hn⟩

theorem offends_behind {before : List Token} {t : Token} (h : Offends before t) :
    Offends (line ++ eol :: before.map (Token.down k)) (t.down k) := by
  refine ⟨(viable_behind hn heol k before).mpr h.viable, ?_⟩
  have hmap : line ++ eol :: before.map (Token.down k) ++ [t.down k] =
      line ++ eol :: (before ++ [t]).map (Token.down k) := by simp
  rw [hmap, viable_behind hn heol]
  exact h.not_viable

omit hn in
theorem startsLine_behind {before : List Token} :
    StartsLine (line ++ eol :: before.map (Token.down k)) ↔ StartsLine before := by
  simp only [StartsLine, List.getLast?_append, List.getLast?_cons, List.getLast?_map,
    Option.some_or, Option.some.injEq, forall_eq']
  cases before.getLast? with
  | none => simp [heol]
  | some u => simp [Token.down]

theorem blames_behind {before after : List Token} {t : Token} (h : Blames before t after) :
    Blames (line ++ eol :: before.map (Token.down k)) (t.down k) (after.map (Token.down k)) := by
  refine ⟨fun hnot => ?_, fun hstart hident => ?_⟩
  · rw [startsLine_behind heol] at hnot
    exact offends_behind hn heol k (h.offends hnot)
  · rw [startsLine_behind heol] at hstart
    obtain ⟨u, rest, rfl, hu, hoffends⟩ := h.early hstart hident
    refine ⟨u.down k, rest.map (Token.down k), rfl, hu, ?_⟩
    have hbehind := offends_behind hn heol k hoffends
    simpa using hbehind

end Behind

/-! ## Texts -/

/-- A line that is a program is a statement. -/
theorem exists_stmt_of_line {l : List Char} {body : List Node} (hl : '\n' ∉ l)
    (h : ofSource (l ++ ['\n']) = .ok (.program body)) : ∃ n, Stmt (Token.lead l) n := by
  rcases ofSource_line hl (.inr rfl) h with ⟨hlead, -⟩ | ⟨n, hn, -⟩
  · exact ⟨.blank, hlead ▸ .blank⟩
  · exact ⟨n, hn⟩

/-- The error of a line alone blames a token of the line or the one that ends it. -/
theorem blames_of_line {l line : List Char} {t stop : Token} {rest : List Token}
    {expected : Option Expected} (hl : '\n' ∉ l)
    (hscan : Token.scan line = Token.lead l ++ stop :: rest) (hstop : stop.kind.endsStatement)
    (hone : stop.line = 1) (hrest : ∀ pad, Line.cutFrom pad [] rest = [])
    (h : ofSource line = .error (.unexpected t expected)) :
    ∃ before after, Token.lead l ++ [stop] = before ++ t :: after ∧ Blames before t after ∧
      t.line = 1 := by
  have hlead : ∀ u ∈ Token.lead l, u.kind.endsStatement = false :=
    fun u hu => Token.not_endsStatement_of_mem_lead hl hu
  rw [ofSource_eq_statements (not_isOversized_of_unexpected h), Line.cut, hscan] at h
  by_cases hfirst : Token.lead l ≠ [] ∨ stop.kind ≠ .eof
  · rw [Line.cutFrom_line _ hlead hstop (.inr hfirst), hrest, List.reverse_nil,
      List.nil_append] at h
    simp only [statements] at h
    split at h
    · next stuck hparse =>
      obtain ⟨before, after, hsplit, hblames⟩ :=
        Statement.blames_of_parse hlead hstop hparse (Except.error.inj h)
      refine ⟨before, after, hsplit, hblames, ?_⟩
      have ht : t ∈ Token.lead l ++ [stop] := by simp only [hsplit, List.mem_append_cons_self]
      rcases List.mem_append.mp ht with ht | ht
      · exact Token.line_of_mem_lead hl ht
      · rw [List.mem_singleton.mp ht, hone]
    · cases h
  · rw [not_or, not_not, not_not] at hfirst
    simp [hfirst.1, Line.cutFrom, hfirst.2, statements, Except.map] at h

theorem blames_of_last {l : List Char} {t : Token} {expected : Option Expected} (hl : '\n' ∉ l)
    (h : ofSource l = .error (.unexpected t expected)) :
    ∃ before after, Token.scan l = before ++ t :: after ∧ Blames before t after ∧ t.line = 1 := by
  obtain ⟨before, after, hsplit, hblames⟩ := blames_of_line hl (Token.scan_eq_lead l) rfl
    (congrArg Nat.cast (Position.lineOf_eq_one hl)) (fun _ => rfl) h
  exact ⟨before, after, (Token.scan_eq_lead l).trans hsplit, hblames⟩

theorem blames_of_first {l : List Char} {t : Token} {expected : Option Expected} (hl : '\n' ∉ l)
    (h : ofSource (l ++ ['\n']) = .error (.unexpected t expected)) (rest : List Char) :
    ∃ before after, Token.scan (l ++ '\n' :: rest) = before ++ t :: after ∧
      Blames before t after ∧ t.line = 1 := by
  obtain ⟨before, after, hsplit, hblames, hline⟩ := blames_of_line hl (Token.scan_newline l []) rfl
    (congrArg Nat.cast (Position.lineOf_eq_one hl)) (fun _ => rfl) h
  have hscan : Token.scan (l ++ '\n' :: rest) =
      before ++ t :: (after ++ (Token.scan rest).map (Token.down (Position.lineOf l))) := by
    rw [Token.scan_newline, List.append_cons, hsplit, List.append_assoc, List.cons_append]
  exact ⟨before, _, hscan, hblames.append _, hline⟩

/-- The error of a text blames one of its tokens. -/
theorem exists_blames {source : List Char} {t : Token} {expected : Option Expected}
    (h : ofSource source = .error (.unexpected t expected)) :
    ∃ before after, Token.scan source = before ++ t :: after ∧ Blames before t after := by
  induction source using Text.lines_induction generalizing t with
  | last l hl =>
    obtain ⟨before, after, hscan, hblames, -⟩ := blames_of_last hl h
    exact ⟨before, after, hscan, hblames⟩
  | newline l rest hl ih =>
    rcases unexpected_of_newline h with hfirst | ⟨body, u, hbody, hu, rfl⟩
    · obtain ⟨before, after, hscan, hblames, -⟩ := blames_of_first hl hfirst rest
      exact ⟨before, after, hscan, hblames⟩
    · obtain ⟨before, after, hsplit, hblames⟩ := ih hu
      obtain ⟨n, hn⟩ := exists_stmt_of_line hl hbody
      have hscan := Token.scan_newline l rest
      rw [hsplit, List.map_append, List.map_cons, ← List.cons_append, ← List.append_assoc] at hscan
      exact ⟨_, _, hscan, blames_behind hn rfl _ hblames⟩

/-- The text is lines that are programs, alone and together, then the line, and then others. -/
structure FirstBadLine (source : List Char) (front : List (List Char)) (line : List Char)
    (back : List (List Char)) : Prop where
  split : Text.splitLines source = front ++ line :: back
  alone : ∀ l ∈ front, ∃ body, ofSource l = .ok (.program body)
  together : ∃ body, ofSource front.flatten = .ok (.program body)

theorem exists_firstBadLine {source : List Char} {t : Token} {expected : Option Expected}
    (h : ofSource source = .error (.unexpected t expected)) :
    ∃ front line back u, FirstBadLine source front line back ∧
      ofSource line = .error (.unexpected u expected) ∧ u.line = 1 ∧ t = u.down front.length := by
  induction source using Text.lines_induction generalizing t with
  | last l hl =>
    obtain ⟨-, -, -, -, hline⟩ := blames_of_last hl h
    refine ⟨[], l, [], t, ⟨Text.splitLines_last hl ?_, by simp, [], by decide⟩, h, hline,
      by simp [Token.down]⟩
    rintro rfl
    have hempty : ofSource [] = .ok (.program []) := by decide
    rw [hempty] at h
    cases h
  | newline l rest hl ih =>
    have hlines := Text.splitLines_newline hl rest
    rcases unexpected_of_newline h with hfirst | ⟨body, u, hbody, hu, rfl⟩
    · obtain ⟨-, -, -, -, hline⟩ := blames_of_first hl hfirst rest
      exact ⟨[], l ++ ['\n'], _, t, ⟨hlines, by simp, [], by decide⟩, hfirst, hline,
        by simp [Token.down]⟩
    · obtain ⟨front, line, back, v, hbad, hline, hv, rfl⟩ := ih hu
      obtain ⟨parsed, hparsed⟩ := hbad.together
      have htogether : ofSource ((l ++ ['\n']) :: front).flatten =
          .ok (.program (body ++ parsed)) := by
        rw [List.flatten_cons, List.append_assoc]
        exact ofSource_newline_of_ok hbody hparsed
      refine ⟨(l ++ ['\n']) :: front, line, back, v, ⟨?_, ?_, _, htogether⟩, hline, hv, ?_⟩
      · rw [hlines, hbad.split, List.cons_append]
      · exact List.forall_mem_cons.mpr ⟨⟨body, hbody⟩, hbad.alone⟩
      · simp [Token.down, Position.lineOf_eq_one hl, Int.add_assoc]

/-- An error blames a token of the text. The tokens before it can be continued to a program, and no
    program starts with them and the token; only a name that starts a line is blamed though it could
    stand there, if the token behind it is no assignment sign and could not. The token stands on the
    first line that is no program alone, and the lines before that one are a program. -/
theorem unexpected_token_is_first_offence (source : List Char) (t : Token)
    (expected : Option Expected) (h : ofSource source = .error (.unexpected t expected)) :
    (∃ before after, Token.tokenize? source = some (before ++ t :: after) ∧
      Blames before t after) ∧
    ∃ front line back u, FirstBadLine source front line back ∧
      ofSource line = .error (.unexpected u expected) ∧ t = u.down front.length ∧
      t.line = front.length + 1 := by
  obtain ⟨before, after, hscan, hblames⟩ := exists_blames h
  obtain ⟨front, line, back, u, hbad, hline, hu, ht⟩ := exists_firstBadLine h
  have htokens : Token.tokenize? source = some (Token.scan source) :=
    Token.tokenize?_eq_some_iff.mpr ⟨rfl, not_isOversized_of_unexpected h⟩
  refine ⟨⟨before, after, hscan ▸ htokens, hblames⟩, front, line, back, u, hbad, hline, ht, ?_⟩
  rw [ht, Token.down, hu, Int.add_comm]

/-- A comma in a group on the second line, and a name without an assignment sign on the third. -/
theorem unexpected_token_is_first_offence_unclosed :
    (∃ before after, Token.tokenize? "print 1\nx = (2, 3)\ny = 4".toList =
        some (before ++ ⟨.comma, ",", 2, 7⟩ :: after) ∧ Blames before ⟨.comma, ",", 2, 7⟩ after) ∧
    ∃ before after, Token.tokenize? "# none\nx = 2\ny 4".toList =
      some (before ++ ⟨.ident, "y", 3, 1⟩ :: after) ∧ Blames before ⟨.ident, "y", 3, 1⟩ after :=
  ⟨(unexpected_token_is_first_offence _ _ (some .closing) (by decide +kernel)).1,
    (unexpected_token_is_first_offence _ _ none (by decide +kernel)).1⟩

end Program

end LineScript
