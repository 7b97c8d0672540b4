-- SUMMARY: The parser accepts exactly the grammar and builds exactly its trees.
import LineScript.Parse.Program
import LineScript.Proofs.Grammar
import LineScript.Proofs.Numerals
import Mathlib.Data.List.Forall2

/-!
# The parser and the grammar

The parser of a line is a machine with a stack, and a token list is cut into lines before any line
is parsed. Soundness is an invariant of the machine: the tokens read so far are those that opened
the statement and the frames of the stack, and behind an operand the tokens of that operand.
Completeness runs the machine over the tokens of a derivation, with any stack below and any tokens
behind.
-/

namespace LineScript

open Grammar

namespace Statement

/-! ## What has been read -/

/-- The tokens that opened the statement. -/
inductive Opens : Head → List Token → Prop where
  | const {c n a : Token} (hc : c.kind = .const) (hn : n.kind = .ident) (ha : a.kind = .assign) :
      Opens (.binding n.text) [c, n, a]
  | binding {n a : Token} (hn : n.kind = .ident) (ha : a.kind = .assign) :
      Opens (.binding n.text) [n, a]
  | print {p : Token} (hp : p.kind = .print) : Opens (.print []) [p]
  | more {p c : Token} {ts : List Token} {done : List Node} (hp : p.kind = .print)
      (hdone : Args ts done) (hc : c.kind = .comma) : Opens (.print done) (p :: (ts ++ [c]))

/-- No unary operator waits on top of the stack, so an operand that comes now stays. -/
def Settled : List Frame → Prop
  | .unary _ :: _ => False
  | _ => True

/-- The tokens that opened the frames of a stack, outermost first. -/
inductive Stacked : List Frame → List Token → Prop where
  | nil : Stacked [] []
  | unary {t : Token} {op : UnaryOp} {stack : List Frame} {ts : List Token}
      (hstack : Stacked stack ts) (ht : UnaryOp.ofKind? t.kind = some op) :
      Stacked (.unary op :: stack) (ts ++ [t])
  | group {t : Token} {stack : List Frame} {ts : List Token} (hstack : Stacked stack ts)
      (ht : t.kind = .lparen) : Stacked (.group :: stack) (ts ++ [t])
  | binary {t : Token} {op : BinaryOp} {left : Node} {stack : List Frame} {ts us : List Token}
      (hstack : Stacked stack ts) (hset : Settled stack) (hleft : Primary us left)
      (ht : BinaryOp.ofKind? t.kind = some op) :
      Stacked (.binary left op :: stack) (ts ++ (us ++ [t]))

/-- The tokens that bring the machine to a state. -/
inductive Reads : List Token → State → Prop where
  | wanting {head : Head} {stack : List Frame} {ts us : List Token} (hhead : Opens head ts)
      (hstack : Stacked stack us) : Reads (ts ++ us) (.wanting head stack)
  | having {head : Head} {stack : List Frame} {ts us vs : List Token} {operand : Node}
      (hhead : Opens head ts) (hstack : Stacked stack us) (hset : Settled stack)
      (hoperand : Primary vs operand) : Reads (ts ++ (us ++ vs)) (.having operand head stack)

/-! ## Soundness -/

/-- The opening of a statement and a last expression are a statement. -/
theorem Opens.complete {head : Head} {ts us : List Token} {e : Node} (h : Opens head ts)
    (he : Expr us e) : Stmt (ts ++ us) (head.complete e) := by
  cases h with
  | const hc hn ha => exact .const hc hn ha he
  | binding hn ha => exact .binding hn ha he
  | print hp => exact .print hp (.one he)
  | more hp hdone hc =>
    have hargs := hdone.snoc hc he
    simpa [Head.complete] using Stmt.print hp hargs

theorem Stacked.fill {head : Head} {stack : List Frame} {ts us vs : List Token} {e : Node}
    (hhead : Opens head ts) (hstack : Stacked stack us) (he : Primary vs e) :
    Reads (ts ++ (us ++ vs)) (fill e head stack) := by
  induction hstack generalizing vs e with
  | nil => exact .having hhead .nil trivial he
  | unary hrest ht ih =>
    rw [List.append_assoc, List.singleton_append]
    exact ih (.unary ht he)
  | group hrest ht => exact .having hhead (.group hrest ht) trivial he
  | binary hrest hset hleft ht => exact .having hhead (.binary hrest hset hleft ht) trivial he

/-- Closing an expression leaves a longer expression behind a shorter stack. -/
theorem Stacked.close {stack : List Frame} {us vs : List Token} {e : Node}
    (hstack : Stacked stack us) (hset : Settled stack) (he : Expr vs e) :
    ∃ us' vs', us ++ vs = us' ++ vs' ∧ Stacked (close e stack).2 us' ∧ Expr vs' (close e stack).1 ∧
      ((close e stack).2 = [] ∨ ∃ rest, (close e stack).2 = .group :: rest) := by
  induction hstack generalizing vs e with
  | nil => exact ⟨[], vs, rfl, .nil, he, .inl rfl⟩
  | unary => exact hset.elim
  | @group t stack ts hrest ht =>
    exact ⟨ts ++ [t], vs, rfl, .group hrest ht, he, .inr ⟨stack, rfl⟩⟩
  | @binary t op left stack ts ls hrest hrestSet hleft ht ih =>
    obtain ⟨us', vs', hsplit, hclosed⟩ := ih hrestSet (.binary hleft ht he)
    refine ⟨us', vs', ?_, hclosed⟩
    rw [← hsplit]
    simp

theorem number_eq_ok {t : Token} {n : Int} :
    number t = .ok n ↔ Numeral.read? t.text = some n ∧ Word32.Fits n := by
  unfold number
  cases h : Numeral.read? t.text with
  | none => simp
  | some m =>
    by_cases hm : Word32.Fits m
    · simp only [hm, if_true, Except.ok.injEq, Option.some.injEq]
      exact ⟨fun h => ⟨h, h ▸ hm⟩, fun h => h.1⟩
    · simp only [hm, if_false, reduceCtorEq, Option.some.injEq, false_iff, not_and]
      rintro rfl
      exact hm

theorem Reads.operand {head : Head} {stack : List Frame} {ts us : List Token} {t : Token}
    {state : State} (hhead : Opens head ts) (hstack : Stacked stack us)
    (h : State.operand head stack t = .ok state) : Reads (ts ++ us ++ [t]) state := by
  rw [List.append_assoc]
  unfold State.operand at h
  split at h
  · next hk =>
    cases h
    exact hstack.fill hhead (.name hk)
  · next hk =>
    cases hn : number t with
    | error e => simp [hn, Except.map] at h
    | ok n =>
      simp only [hn, Except.map, Except.ok.injEq] at h
      subst h
      obtain ⟨hread, hfits⟩ := number_eq_ok.mp hn
      exact hstack.fill hhead (.number hk hread hfits)
  · next hk =>
    cases h
    exact hstack.fill hhead (.true hk)
  · next hk =>
    cases h
    exact hstack.fill hhead (.false hk)
  · next hk =>
    cases h
    exact .wanting hhead (.group hstack hk)
  · split at h
    · next op hop =>
      cases h
      exact .wanting hhead (.unary hstack hop)
    · cases h

theorem Reads.ending {head : Head} {stack : List Frame} {ts us vs : List Token} {t : Token}
    {e : Node} {state : State} (hhead : Opens head ts) (hstack : Stacked stack us)
    (hset : Settled stack) (he : Primary vs e) (h : State.ending e head stack t = .ok state) :
    Reads (ts ++ (us ++ vs) ++ [t]) state := by
  obtain ⟨us', vs', hsplit, hrest, hexpr, hbottom⟩ := hstack.close hset (.primary he)
  rw [hsplit, List.append_assoc, List.append_assoc]
  unfold State.ending at h
  split at h
  · next expr stack' hclose =>
    rw [hclose] at hrest hexpr
    cases hrest with
    | @group l _ ls hrest hl =>
      split at h
      · next hr =>
        cases h
        have hgroup := hrest.fill hhead (.group hl hexpr hr)
        simpa using hgroup
      · cases h
  · next expr stack' hnot hclose =>
    rw [hclose] at hrest hexpr hbottom
    rcases hbottom with rfl | ⟨rest, rfl⟩
    · cases hrest
      split at h
      · next done =>
        split at h
        · next hc =>
          cases h
          cases hhead with
          | print hp => simpa using Reads.wanting (.more hp (.one hexpr) hc) .nil
          | more hp hdone hc' =>
            have hargs := hdone.snoc hc' hexpr
            simpa using Reads.wanting (.more hp hargs hc) .nil
        · cases h
      · cases h
    · exact (hnot rest rfl).elim

/-- One token more has been read after a step. -/
theorem Reads.step {seen : List Token} {state state' : State} {t : Token} (h : Reads seen state)
    (hstep : state.step t = .ok state') : Reads (seen ++ [t]) state' := by
  cases h with
  | wanting hhead hstack => exact .operand hhead hstack hstep
  | having hhead hstack hset he =>
    simp only [State.step] at hstep
    split at hstep
    · next op hop =>
      cases hstep
      have hbinary := Reads.wanting hhead (.binary hstack hset he hop)
      simpa using hbinary
    · exact .ending hhead hstack hset he hstep

theorem Reads.finish {seen : List Token} {state : State} {stop : Token} {n : Node}
    (h : Reads seen state) (hfinish : state.finish stop = .ok n) : Stmt seen n := by
  cases h with
  | wanting => cases hfinish
  | having hhead hstack hset he =>
    obtain ⟨us', vs', hsplit, hrest, hexpr, -⟩ := hstack.close hset (.primary he)
    simp only [State.finish] at hfinish
    split at hfinish
    · next expr hclose =>
      rw [hclose] at hrest hexpr
      cases hfinish
      cases hrest
      rw [hsplit]
      exact hhead.complete hexpr
    · cases hfinish

/-- A run of the machine that ends well has read a statement. -/
theorem Reads.parseFrom {seen ts : List Token} {state : State} {stop : Token} {n : Node}
    (h : Reads seen state) (hrun : parseFrom stop state ts = .ok n) : Stmt (seen ++ ts) n := by
  induction ts generalizing seen state with
  | nil =>
    rw [List.append_nil]
    cases hf : state.finish stop with
    | error e => simp [Statement.parseFrom, hf, Except.mapError] at hrun
    | ok m =>
      simp only [Statement.parseFrom, hf, Except.mapError, Except.ok.injEq] at hrun
      exact hrun ▸ h.finish hf
  | cons t ts ih =>
    simp only [Statement.parseFrom] at hrun
    split at hrun
    · next state' hstep =>
      have hrest := ih (h.step hstep) hrun
      simpa using hrest
    · cases hrun

theorem parseBinding_eq_ok {stop : Token} {ts : List Token} {n : Node} :
    parseBinding stop ts = .ok n ↔ ∃ name assign body, ts = name :: assign :: body ∧
      name.kind = .ident ∧ assign.kind = .assign ∧
      parseFrom stop (.wanting (.binding name.text) []) body = .ok n := by
  constructor
  · intro h
    unfold parseBinding at h
    split at h
    · cases h
    · split at h <;> cases h
    · next name assign body =>
      split at h
      · cases h
      · next hname =>
        split at h
        · cases h
        · next hassign =>
          exact ⟨name, assign, body, rfl, not_not.mp hname, not_not.mp hassign, h⟩
  · rintro ⟨name, assign, body, rfl, hname, hassign, h⟩
    simpa [parseBinding, hname, hassign] using h

/-- A line that parses is a statement. -/
theorem stmt_of_parse {l : Line} {n : Node} (h : parse l = .ok n) : Stmt l.tokens n := by
  unfold parse at h
  split at h
  · next hl =>
    cases h
    rw [hl]
    exact .blank
  · next t ts hl =>
    rw [hl]
    split at h
    · next hc =>
      obtain ⟨name, assign, body, rfl, hname, hassign, hrun⟩ := parseBinding_eq_ok.mp h
      exact (Reads.wanting (.const hc hname hassign) .nil).parseFrom hrun
    · split at h
      · obtain ⟨name, assign, body, hts, hname, hassign, hrun⟩ := parseBinding_eq_ok.mp h
        rw [hts]
        exact (Reads.wanting (.binding hname hassign) .nil).parseFrom hrun
      · split at h
        · next hp => exact (Reads.wanting (.print hp) .nil).parseFrom h
        · cases h

/-! ## Completeness -/

theorem fill_of_settled {e : Node} {head : Head} {stack : List Frame} (h : Settled stack) :
    fill e head stack = .having e head stack := by
  cases stack with
  | nil => rfl
  | cons frame stack =>
    cases frame with
    | unary => exact h.elim
    | group => rfl
    | binary => rfl

theorem parseFrom_cons {stop t : Token} {state state' : State} (ts : List Token)
    (h : state.step t = .ok state') :
    parseFrom stop state (t :: ts) = parseFrom stop state' ts := by
  simp [parseFrom, h]

theorem step_of_unary {head : Head} {stack : List Frame} {t : Token} {op : UnaryOp}
    (h : UnaryOp.ofKind? t.kind = some op) :
    (State.wanting head stack).step t = .ok (.wanting head (.unary op :: stack)) := by
  cases hk : t.kind <;> simp [hk, UnaryOp.ofKind?] at h <;>
    simp [State.step, State.operand, hk, UnaryOp.ofKind?, h]

mutual

theorem parseFrom_primary {ts : List Token} {e : Node} (stop : Token) (head : Head)
    (stack : List Frame) (rest : List Token) : Primary ts e →
    parseFrom stop (.wanting head stack) (ts ++ rest) = parseFrom stop (fill e head stack) rest
  | .name ht => parseFrom_cons rest (by simp [State.step, State.operand, ht])
  | .number ht hn hfits => by
    have hnumber := number_eq_ok.mpr ⟨hn, hfits⟩
    exact parseFrom_cons rest (by simp [State.step, State.operand, ht, hnumber, Except.map])
  | .true ht => parseFrom_cons rest (by simp [State.step, State.operand, ht])
  | .false ht => parseFrom_cons rest (by simp [State.step, State.operand, ht])
  | @Primary.group l r ts e hl he hr => by
    obtain ⟨operand, stack', hclose, hrun⟩ :=
      parseFrom_expr stop head (.group :: stack) (r :: rest) trivial he
    have hopen : (State.wanting head stack).step l = .ok (.wanting head (.group :: stack)) := by
      simp [State.step, State.operand, hl]
    have hshut : (State.having operand head stack').step r = .ok (fill e head stack) := by
      simp [State.step, State.ending, hr, BinaryOp.ofKind?, hclose, close]
    rw [List.cons_append, parseFrom_cons _ hopen, List.append_assoc, List.singleton_append, hrun,
      parseFrom_cons _ hshut]
  | .unary ht he => by
    rw [List.cons_append, parseFrom_cons _ (step_of_unary ht),
      parseFrom_primary stop head _ rest he]
    rfl
termination_by structural h => h

theorem parseFrom_expr {ts : List Token} {e : Node} (stop : Token) (head : Head)
    (stack : List Frame) (rest : List Token) (hset : Settled stack) : Expr ts e →
    ∃ operand stack', close operand stack' = close e stack ∧
      parseFrom stop (.wanting head stack) (ts ++ rest) =
        parseFrom stop (.having operand head stack') rest
  | .primary he => by
    refine ⟨e, stack, rfl, ?_⟩
    rw [parseFrom_primary stop head stack rest he, fill_of_settled hset]
  | @Expr.binary t op ts us a b ha ht hb => by
    obtain ⟨operand, stack', hclose, hrun⟩ :=
      parseFrom_expr stop head (.binary a op :: stack) rest trivial hb
    have hstep : (State.having a head stack).step t = .ok (.wanting head (.binary a op :: stack)) :=
      by simp [State.step, ht]
    refine ⟨operand, stack', hclose, ?_⟩
    rw [List.append_assoc, List.cons_append, parseFrom_primary stop head stack _ ha,
      fill_of_settled hset, parseFrom_cons _ hstep, hrun]
termination_by structural h => h

end

/-- A last expression completes the statement. -/
theorem parseFrom_last {ts : List Token} {e : Node} (stop : Token) (head : Head) (he : Expr ts e) :
    parseFrom stop (.wanting head []) ts = .ok (head.complete e) := by
  obtain ⟨operand, stack', hclose, hrun⟩ := parseFrom_expr stop head [] [] trivial he
  rw [List.append_nil] at hrun
  rw [hrun]
  simp [parseFrom, State.finish, hclose, close, Except.mapError]

theorem parseFrom_args {ts : List Token} {es : List Node} (stop : Token) (done : List Node)
    (h : Args ts es) :
    parseFrom stop (.wanting (.print done) []) ts = .ok (.ofPrint (done ++ es)) := by
  induction h generalizing done with
  | one he => exact parseFrom_last stop (.print done) he
  | @more c ts us e es he hc _ ih =>
    obtain ⟨operand, stack', hclose, hrun⟩ :=
      parseFrom_expr stop (.print done) [] (c :: us) trivial he
    have hcomma : (State.having operand (.print done) stack').step c =
        .ok (.wanting (.print (done ++ [e])) []) := by
      simp [State.step, State.ending, hc, BinaryOp.ofKind?, hclose, close]
    rw [hrun, parseFrom_cons us hcomma, ih, List.append_assoc, List.singleton_append]

/-- A line parses to a statement exactly if its tokens are that statement. -/
theorem parse_eq_ok_iff {l : Line} {n : Node} : parse l = .ok n ↔ Stmt l.tokens n := by
  refine ⟨stmt_of_parse, fun h => ?_⟩
  obtain ⟨tokens, stop, next⟩ := l
  cases h with
  | @const c name assign body e hc hname hassign he =>
    have hrun := parseFrom_last stop (.binding name.text) he
    simpa [parse, hc, Head.complete] using
      parseBinding_eq_ok.mpr ⟨name, assign, body, rfl, hname, hassign, hrun⟩
  | @binding name assign body e hname hassign he =>
    have hrun := parseFrom_last stop (.binding name.text) he
    simpa [parse, hname, isRebinding, hassign, Head.complete] using
      parseBinding_eq_ok.mpr ⟨name, assign, body, rfl, hname, hassign, hrun⟩
  | print hp hes => simpa [parse, hp] using parseFrom_args stop [] hes
  | blank => rfl

end Statement

/-! ## Errors -/

/-- If the token is a number, its text is a numeral whose value fits a signed 32-bit word. -/
def Token.Readable (t : Token) : Prop :=
  t.kind = .int → ∃ n, Numeral.read? t.text = some n ∧ Word32.Fits n

/-- The error is a token that the grammar does not allow where it stands. -/
def ParseError.IsUnexpected (e : ParseError) : Prop := ∃ t expected, e = .unexpected t expected

namespace Statement

theorem error_of_operand {head : Head} {stack : List Frame} {t : Token} {e : ParseError}
    (h : State.operand head stack t = .error e) :
    (t.kind = .int ∧ number t = .error e) ∨ e = .unexpected t none := by
  unfold State.operand at h
  split at h
  · cases h
  · next hk =>
    cases hn : number t with
    | error e' =>
      simp only [hn, Except.map, Except.error.injEq] at h
      exact .inl ⟨hk, congrArg Except.error h⟩
    | ok n => simp [hn, Except.map] at h
  · cases h
  · cases h
  · cases h
  · split at h
    · cases h
    · cases h
      exact .inr rfl

theorem error_of_ending {expr : Node} {head : Head} {stack : List Frame} {t : Token}
    {e : ParseError} (h : State.ending expr head stack t = .error e) :
    ∃ expected, e = .unexpected t expected := by
  unfold State.ending at h
  split at h
  · split at h
    · cases h
    · cases h
      exact ⟨some .closing, rfl⟩
  · split at h
    · split at h
      · cases h
      · cases h
        exact ⟨none, rfl⟩
    · cases h
      exact ⟨none, rfl⟩

/-- A step fails at a number that is none, or because the token is unexpected. -/
theorem error_of_step {state : State} {t : Token} {e : ParseError} (h : state.step t = .error e) :
    (t.kind = .int ∧ number t = .error e) ∨ ∃ expected, e = .unexpected t expected := by
  cases state with
  | wanting head stack => exact (error_of_operand h).imp_right fun he => ⟨none, he⟩
  | having expr head stack =>
    simp only [State.step] at h
    split at h
    · cases h
    · exact .inr (error_of_ending h)

theorem error_of_finish {state : State} {stop : Token} {e : ParseError}
    (h : state.finish stop = .error e) : ∃ expected, e = .unexpected stop expected := by
  cases state with
  | wanting head stack =>
    cases h
    exact ⟨none, rfl⟩
  | having expr head stack =>
    simp only [State.finish] at h
    split at h
    · cases h
    · cases h
      exact ⟨some .closing, rfl⟩

theorem isUnexpected_of_step {state : State} {t : Token} {e : ParseError} (ht : t.Readable)
    (h : state.step t = .error e) : e.IsUnexpected := by
  rcases error_of_step h with ⟨hint, hnumber⟩ | ⟨expected, rfl⟩
  · obtain ⟨n, hn⟩ := ht hint
    rw [number_eq_ok.mpr hn] at hnumber
    cases hnumber
  · exact ⟨t, expected, rfl⟩

theorem isUnexpected_of_parseFrom {stop : Token} {state : State} {ts : List Token} {stuck : Stuck}
    (hts : ∀ t ∈ ts, t.Readable) (h : parseFrom stop state ts = .error stuck) :
    stuck.error.IsUnexpected := by
  induction ts generalizing state with
  | nil =>
    cases hf : state.finish stop with
    | error e =>
      simp only [parseFrom, hf, Except.mapError, Except.error.injEq] at h
      exact h ▸ ⟨stop, error_of_finish hf⟩
    | ok n => simp [parseFrom, hf, Except.mapError] at h
  | cons t ts ih =>
    rw [List.forall_mem_cons] at hts
    simp only [parseFrom] at h
    split at h
    · exact ih hts.2 h
    · next e hstep =>
      cases h
      exact isUnexpected_of_step hts.1 hstep

theorem isUnexpected_of_parseBinding {stop : Token} {ts : List Token} {stuck : Stuck}
    (hts : ∀ t ∈ ts, t.Readable) (h : parseBinding stop ts = .error stuck) :
    stuck.error.IsUnexpected := by
  unfold parseBinding at h
  split at h
  · cases h
    exact ⟨stop, some .identifier, rfl⟩
  · next name =>
    split at h
    · cases h
      exact ⟨stop, some .assign, rfl⟩
    · cases h
      exact ⟨name, some .identifier, rfl⟩
  · next name assign body =>
    split at h
    · cases h
      exact ⟨name, some .identifier, rfl⟩
    · split at h
      · cases h
        exact ⟨assign, some .assign, rfl⟩
      · simp only [List.forall_mem_cons] at hts
        exact isUnexpected_of_parseFrom hts.2.2 h

theorem isUnexpected_of_parse {l : Line} {stuck : Stuck} (hl : ∀ t ∈ l.tokens, t.Readable)
    (h : parse l = .error stuck) : stuck.error.IsUnexpected := by
  unfold parse at h
  split at h
  · cases h
  · next t ts htokens =>
    rw [htokens] at hl
    split at h
    · exact isUnexpected_of_parseBinding (List.forall_mem_cons.mp hl).2 h
    · split at h
      · exact isUnexpected_of_parseBinding hl h
      · split at h
        · exact isUnexpected_of_parseFrom (List.forall_mem_cons.mp hl).2 h
        · cases h
          exact ⟨t, none, rfl⟩

end Statement

/-! ## Lines -/

theorem Token.kind_ne_of_endsStatement {k k' : Token.Kind} (h : k.endsStatement)
    (h' : k'.endsStatement = false) : k ≠ k' := by
  rintro rfl
  simp [h'] at h

namespace Line

/-- The tokens of the lines are tokens of the list. -/
theorem mem_of_mem_cutFrom {pad : Token} {seen tokens : List Token} {l : Line} {t : Token}
    (hl : l ∈ cutFrom pad seen tokens) (ht : t ∈ l.tokens) : t ∈ seen ∨ t ∈ tokens := by
  induction tokens generalizing seen with
  | nil =>
    simp only [cutFrom] at hl
    split at hl
    · cases hl
    · obtain rfl := List.mem_singleton.mp hl
      exact .inl (List.mem_reverse.mp ht)
  | cons u us ih =>
    simp only [cutFrom] at hl
    split at hl
    · cases hl
    · split at hl
      · rcases List.mem_cons.mp hl with rfl | hl
        · exact .inl (List.mem_reverse.mp ht)
        · rcases ih hl with hseen | hrest
          · cases hseen
          · exact .inr (List.mem_cons_of_mem u hrest)
      · rcases ih hl with hseen | hrest
        · rcases List.mem_cons.mp hseen with rfl | hseen
          · exact .inr (List.mem_cons_self ..)
          · exact .inl hseen
        · exact .inr (List.mem_cons_of_mem u hrest)

theorem head_ne_eof {ts : List Token} {s : Stream' Token} (hne : ts ≠ [])
    (hts : ∀ t ∈ ts, t.kind.endsStatement = false) : (ts ++ₛ s).head.kind ≠ .eof := by
  cases ts with
  | nil => exact absurd rfl hne
  | cons t ts =>
    exact (Token.kind_ne_of_endsStatement rfl (hts t (List.mem_cons_self ..))).symm

/-- The lines are statements with the given trees exactly if the grammar finds these statements in
    the stream, behind the tokens already seen of the first line. -/
theorem forall₂_cutFrom_iff (pad : Token) {seen tokens : List Token} {body : List Node}
    (hseen : ∀ t ∈ seen, t.kind.endsStatement = false) :
    List.Forall₂ (fun l n => Stmt l.tokens n) (cutFrom pad seen tokens) body ↔
      Body (seen.reverse ++ₛ stream tokens) body := by
  induction tokens generalizing seen body with
  | nil =>
    have hstream : stream [] = Stream'.cons Token.nowhere (stream []) :=
      Stream'.const_eq Token.nowhere
    have hover : ∀ rest, Body (stream []) rest ↔ rest = [] := fun rest => body_of_eof rfl
    by_cases hempty : seen = []
    · subst hempty
      simp only [cutFrom, List.isEmpty_nil, if_true, List.forall₂_nil_left_iff]
      exact (hover body).symm
    · have hreverse : ∀ t ∈ seen.reverse, t.kind.endsStatement = false :=
        fun t ht => hseen t (List.mem_reverse.mp ht)
      have hne : seen.reverse ≠ [] := fun h => hempty (List.reverse_eq_nil_iff.mp h)
      rw [hstream, body_of_line hreverse rfl (head_ne_eof hne hreverse)]
      simp [cutFrom, hempty, List.forall₂_cons_left_iff, hover]
  | cons t ts ih =>
    have hstream : stream (t :: ts) = Stream'.cons t (stream ts) := rfl
    have hreverse : ∀ u ∈ seen.reverse, u.kind.endsStatement = false :=
      fun u hu => hseen u (List.mem_reverse.mp hu)
    simp only [cutFrom]
    split
    · next hover =>
      simp only [Bool.and_eq_true, decide_eq_true_eq, List.isEmpty_iff] at hover
      obtain ⟨hkind, rfl⟩ := hover
      have hhead : (stream (t :: ts)).head.kind = .eof := hkind
      rw [List.forall₂_nil_left_iff]
      exact (body_of_eof hhead).symm
    · next hnot =>
      split
      · next hends =>
        have hfirst : (seen.reverse ++ₛ Stream'.cons t (stream ts)).head.kind ≠ .eof := by
          by_cases hempty : seen = []
          · subst hempty
            simpa using hnot
          · exact head_ne_eof (fun h => hempty (List.reverse_eq_nil_iff.mp h)) hreverse
        rw [hstream, body_of_line hreverse hends hfirst, List.forall₂_cons_left_iff]
        have hrest : ∀ rest, List.Forall₂ (fun l n => Stmt l.tokens n) (cutFrom pad [] ts) rest ↔
            Body (stream ts) rest := fun rest => ih (List.forall_mem_nil _)
        simp only [hrest]
      · next hends =>
        have hseen' : ∀ u ∈ t :: seen, u.kind.endsStatement = false :=
          List.forall_mem_cons.mpr ⟨by simpa using hends, hseen⟩
        rw [ih hseen', List.reverse_cons, Stream'.append_append_stream, hstream]
        rfl

end Line

/-! ## Programs -/

namespace Program

theorem statements_eq_ok_iff {ls : List Line} {body : List Node} :
    statements ls = .ok body ↔ List.Forall₂ (fun l n => Statement.parse l = .ok n) ls body := by
  induction ls generalizing body with
  | nil => simp [statements, List.forall₂_nil_left_iff, eq_comm]
  | cons l ls ih =>
    rw [List.forall₂_cons_left_iff]
    simp only [statements]
    cases hl : Statement.parse l with
    | error stuck => simp
    | ok n =>
      cases hls : statements ls with
      | error e => simp [Except.map, ← ih, hls]
      | ok rest =>
        simp only [Except.map, Except.ok.injEq, ← ih, hls]
        constructor
        · rintro rfl
          exact ⟨n, rest, rfl, rfl, rfl⟩
        · rintro ⟨m, rest', rfl, rfl, rfl⟩
          rfl

theorem isUnexpected_of_statements {ls : List Line} {e : ParseError}
    (hls : ∀ l ∈ ls, ∀ t ∈ l.tokens, t.Readable) (h : statements ls = .error e) :
    e.IsUnexpected := by
  induction ls with
  | nil => cases h
  | cons l ls ih =>
    rw [List.forall_mem_cons] at hls
    simp only [statements] at h
    split at h
    · next stuck hl =>
      cases h
      exact Statement.isUnexpected_of_parse hls.1 hl
    · cases hrest : statements ls with
      | error e' =>
        simp only [hrest, Except.map, Except.error.injEq] at h
        subst h
        exact ih hls.2 hrest
      | ok rest => simp [hrest, Except.map] at h

theorem isUnexpected_of_ofTokens {tokens : List Token} {e : ParseError}
    (htokens : ∀ t ∈ tokens, t.Readable) (h : ofTokens tokens = .error e) : e.IsUnexpected := by
  have hlines : ∀ l ∈ Line.cut tokens, ∀ t ∈ l.tokens, t.Readable := by
    intro l hl t ht
    rcases Line.mem_of_mem_cutFrom hl ht with hseen | hmem
    · cases hseen
    · exact htokens t hmem
  cases hs : statements (Line.cut tokens) with
  | error e' =>
    simp only [ofTokens, hs, Except.map, Except.error.injEq] at h
    subst h
    exact isUnexpected_of_statements hlines hs
  | ok body => simp [ofTokens, hs, Except.map] at h

theorem ofTokens_eq_ok_iff {tokens : List Token} {tree : Node} :
    ofTokens tokens = .ok tree ↔ Derives tokens tree := by
  have hlines : ∀ body, statements (Line.cut tokens) = .ok body ↔ Body (stream tokens) body := by
    intro body
    rw [statements_eq_ok_iff]
    simp only [Statement.parse_eq_ok_iff]
    exact Line.forall₂_cutFrom_iff _ (List.forall_mem_nil _)
  unfold Derives ofTokens
  simp only [← hlines]
  cases statements (Line.cut tokens) with
  | error e => simp [Except.map]
  | ok body => simp [Except.map, eq_comm]

/-- If every number is a numeral whose value fits, the parser returns a tree exactly if it is the
    one that the grammar derives, and reports an unexpected token if the grammar derives none. -/
theorem ofTokens_exactly_grammar (tokens : List Token) (hreadable : ∀ t ∈ tokens, t.Readable) :
    (∀ tree, ofTokens tokens = .ok tree ↔ Derives tokens tree) ∧
    (∀ a b, Derives tokens a → Derives tokens b → a = b) ∧
    ((∀ tree, ¬ Derives tokens tree) →
      ∃ t expected, ofTokens tokens = .error (.unexpected t expected)) := by
  refine ⟨fun tree => ofTokens_eq_ok_iff, ?_, ?_⟩
  · intro a b ha hb
    rw [← ofTokens_eq_ok_iff] at ha hb
    exact Except.ok.inj (ha.symm.trans hb)
  · intro hnone
    cases hresult : ofTokens tokens with
    | ok tree => exact absurd (ofTokens_eq_ok_iff.mp hresult) (hnone tree)
    | error e =>
      obtain ⟨t, expected, rfl⟩ := isUnexpected_of_ofTokens hreadable hresult
      exact ⟨t, expected, rfl⟩

/-- The tokens of `x = 20 - 3` and `print (x)`, with an end of input between them and none behind. -/
theorem derives_subtraction_print :
    Derives [⟨.ident, "x", 1, 1⟩, ⟨.assign, "=", 1, 3⟩, ⟨.int, "20", 1, 5⟩, ⟨.minus, "-", 1, 8⟩,
        ⟨.int, "3", 1, 10⟩, ⟨.eof, "", 1, 11⟩, ⟨.print, "print", 2, 1⟩, ⟨.lparen, "(", 2, 7⟩,
        ⟨.ident, "x", 2, 8⟩, ⟨.rparen, ")", 2, 9⟩]
      (.program [.ofBinding "x" (.ofBinary .sub (.literal (.int 20)) (.literal (.int 3))),
        .ofPrint [.ofName "x"]]) := by
  refine ((ofTokens_exactly_grammar _ ?_).1 _).mp (by decide +kernel)
  intro t ht hint
  simp only [List.mem_cons, List.not_mem_nil, or_false] at ht
  rcases ht with rfl | rfl | rfl | rfl | rfl | rfl | rfl | rfl | rfl | rfl <;> try cases hint
  · exact ⟨20, by decide +kernel, by decide⟩
  · exact ⟨3, by decide +kernel, by decide⟩

/-- Behind the limit on digits lies a numeral whose value fits: it is neither parsed nor reported as
    an unexpected token. -/
theorem ofTokens_overlong_zeros :
    (∀ c ∈ List.replicate 4301 '0', c.isDigit) ∧
    Word32.Fits (Text.digitsValue (List.replicate 4301 '0')) ∧
    ofTokens [⟨.print, "print", 1, 1⟩, ⟨.int, String.ofList (List.replicate 4301 '0'), 1, 7⟩,
      ⟨.eof, "", 1, 4308⟩] = .error .unreadable := by
  have hstuck : ∀ text, Numeral.read? text = none →
      ofTokens [⟨.print, "print", 1, 1⟩, ⟨.int, text, 1, 7⟩, ⟨.eof, "", 1, 4308⟩] =
        .error .unreadable := by
    intro text hread
    simp [ofTokens, Line.cut, Line.cutFrom, Token.Kind.endsStatement, statements, Statement.parse,
      Statement.parseFrom, Statement.State.step, Statement.State.operand, Statement.number, hread,
      Except.map]
  refine ⟨fun _ => Text.isDigit_of_mem_zeros, ?_, ?_⟩
  · rw [Text.digitsValue_zeros]
    decide
  · exact hstuck _ (Numeral.read?_zeros (by decide))

end Program

end LineScript
