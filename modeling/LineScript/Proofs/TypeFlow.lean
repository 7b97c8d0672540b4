-- SUMMARY: The types of a run depend on the types of what it reads only.
import LineScript.Proofs.Dependence
import LineScript.Proofs.Isolation

/-!
# Flow of types

Operators look at the types of their operands first, and what they do with the values decides about
values only; the one exception is a division by zero. So two runs of a program, from environments in
which each name reads with one type, go side by side: statement by statement they compute values of
one type, print as many lines, and fail by the same mismatch of types at the same place, as long as
neither divides by zero.
-/

namespace LineScript

/-! ## Results side by side -/

/-- The result is the fault of a division by zero. -/
def isDivision : Except RunError Value → Bool
  | .error (.fault (.divisionByZero _)) => true
  | _ => false

/-- Unless one of them is a division by zero, the results are values of one type or the same
    failure. -/
def Alongside (r r' : Except RunError Value) : Prop :=
  isDivision r = false → isDivision r' = false → r.map Value.type = r'.map Value.type

/-- Results that are alike up to the values are the same failure or values of one type. -/
theorem types_cases {r r' : Except RunError Value} (h : r.map Value.type = r'.map Value.type) :
    (∃ e, r = .error e ∧ r' = .error e) ∨
      ∃ a a', r = .ok a ∧ r' = .ok a' ∧ a.type = a'.type := by
  cases r with
  | error e =>
    cases r' with
    | error e' => exact .inl ⟨e, rfl, congrArg _ (Except.error.inj h).symm⟩
    | ok a' => cases h
  | ok a =>
    cases r' with
    | error e' => cases h
    | ok a' => exact .inr ⟨a, a', rfl, rfl, Except.ok.inj h⟩

theorem exists_typeMismatch {e : RunError} (hsafe : Safe (.error e))
    (hdiv : isDivision (.error e) = false) : ∃ x y, e = .fault (.typeMismatch x y) := by
  cases e with
  | fault f =>
    cases f with
    | typeMismatch x y => exact ⟨x, y, rfl⟩
    | unknownMethod name => exact hsafe.elim
    | divisionByZero op => cases hdiv
  | _ => exact hsafe.elim

/-- Each name reads with the same type in the two environments. -/
def Env.SameTypes (env env' : Env) : Prop :=
  ∀ name, (env.valueOf name).type = (env'.valueOf name).type

theorem Env.SameTypes.put {env env' : Env} (h : Env.SameTypes env env') (name : Scalar)
    {v v' : Value} (hv : v.type = v'.type) : Env.SameTypes (env.put name v) (env'.put name v') := by
  intro other
  rw [valueOf_put, valueOf_put]
  split
  · cases v <;> cases v' <;> cases hv <;> rfl
  · exact h other

/-- The number of lines that events put out. -/
def Event.lineCount (events : List Event) : Nat := (outputOf events).toList.count '\n'

namespace Event

theorem lineCount_append (es fs : List Event) :
    lineCount (es ++ fs) = lineCount es + lineCount fs := by
  simp [lineCount]

theorem lineCount_finished (kind : String) (v : Value) (es : List Event) :
    lineCount (.finished kind v :: es) = lineCount es := by
  simp [lineCount, output]

end Event

/-! ## Operators -/

theorem type_mapError {r r' : Except Fault Value} (h : r.map Value.type = r'.map Value.type) :
    (r.mapError RunError.fault).map Value.type = (r'.mapError RunError.fault).map Value.type := by
  cases r <;> cases r' <;> simp_all [Except.map, Except.mapError]

theorem UnaryOp.type_apply (op : UnaryOp) {a a' : Value} (h : a.type = a'.type) :
    (op.apply a).map Value.type = (op.apply a').map Value.type := by
  cases a <;> cases a' <;> cases h <;> cases op <;> rfl

theorem type_applyUnary (op : Json) {a a' : Value} (h : a.type = a'.type) :
    (applyUnary op a).map Value.type = (applyUnary op a').map Value.type := by
  unfold applyUnary
  split
  · next o _ => exact type_mapError (o.type_apply h)
  · rfl

/-- Of the operators on integers, those that divide look at a value to decide whether they fail. -/
theorem BinaryOp.alongside_applyInt (op : BinaryOp) (dialect : Dialect) (a b a' b' : Int) :
    Alongside ((op.applyInt dialect a b).mapError .fault)
      ((op.applyInt dialect a' b').mapError .fault) := by
  cases op with
  | div =>
    simp only [applyInt]
    cases Word32.quotient? a b with
    | none =>
      intro hdiv
      cases hdiv
    | some q =>
      cases Word32.quotient? a' b' with
      | none =>
        intro _ hdiv
        cases hdiv
      | some q' => exact fun _ _ => rfl
  | mod =>
    simp only [applyInt]
    cases Word32.remainder? a b with
    | none =>
      intro hdiv
      cases hdiv
    | some r =>
      cases Word32.remainder? a' b' with
      | none =>
        intro _ hdiv
        cases hdiv
      | some r' => exact fun _ _ => rfl
  | le => cases dialect <;> exact fun _ _ => rfl
  | ge => cases dialect <;> exact fun _ _ => rfl
  | _ => exact fun _ _ => rfl

theorem BinaryOp.type_applyBool (op : BinaryOp) (dialect : Dialect) (a b a' b' : Bool) :
    (op.applyBool dialect a b).map Value.type = (op.applyBool dialect a' b').map Value.type := by
  cases op with
  | xor => cases dialect <;> rfl
  | _ => rfl

theorem alongside_applyBinary (dialect : Dialect) (op : Json) {a b a' b' : Value}
    (ha : a.type = a'.type) (hb : b.type = b'.type) :
    Alongside (applyBinary dialect op a b) (applyBinary dialect op a' b') := by
  cases a <;> cases a' <;> cases ha <;> cases b <;> cases b' <;> cases hb
  -- Two integers or two truth values are handed to the operator, all else is a mismatch.
  case int.int.refl.int.int.refl x x' y y' =>
    simp only [applyBinary]
    cases BinaryOp.ofJson? op with
    | none => exact fun _ _ => rfl
    | some o => exact o.alongside_applyInt dialect x y x' y'
  case bool.bool.refl.bool.bool.refl x x' y y' =>
    simp only [applyBinary]
    cases BinaryOp.ofJson? op with
    | none => exact fun _ _ => rfl
    | some o => exact fun _ _ => type_mapError (o.type_applyBool dialect x y x' y')
  all_goals exact fun _ _ => rfl

/-! ## Expressions -/

namespace Outcome

/-- Unless one of them is a division by zero, the two outcomes are values of one type or the same
    failure, behind as many lines. -/
def Alongside (o o' : Outcome Value) : Prop :=
  isDivision o.result = false → isDivision o'.result = false →
    o.result.map Value.type = o'.result.map Value.type ∧
      Event.lineCount o.events = Event.lineCount o'.events

theorem not_isDivision_of_andThen {o : Outcome Value} {f : Value → Outcome Value}
    (h : isDivision (o.andThen f).result = false) : isDivision o.result = false := by
  unfold andThen at h
  split at h
  · next hr => rwa [hr]
  · next hr => rw [hr]; rfl

/-- Outcomes go side by side if they do so up to a value and behind values of one type. -/
theorem Alongside.andThen {o o' : Outcome Value} {f f' : Value → Outcome Value}
    (h : o.Alongside o')
    (hf : ∀ a a', o.result = .ok a → o'.result = .ok a' → a.type = a'.type →
      (f a).Alongside (f' a')) :
    (o.andThen f).Alongside (o'.andThen f') := by
  intro hdiv hdiv'
  obtain ⟨htypes, hlines⟩ := h (not_isDivision_of_andThen hdiv) (not_isDivision_of_andThen hdiv')
  obtain ⟨e, hr, hr'⟩ | ⟨a, a', hr, hr', htype⟩ := types_cases htypes
  · simp only [Outcome.andThen, hr, hr', hlines, and_self]
  · simp only [Outcome.andThen, hr, hr', Event.lineCount_append, hlines] at hdiv hdiv' ⊢
    obtain ⟨htypes', hlines'⟩ := hf a a' hr hr' htype hdiv hdiv'
    exact ⟨htypes', by rw [hlines']⟩

theorem alongside_of {r r' : Except RunError Value} (h : LineScript.Alongside r r') :
    (Outcome.of r).Alongside (.of r') :=
  fun hdiv hdiv' => ⟨h hdiv hdiv', rfl⟩

end Outcome

namespace Node

theorem lineCount_eval (dialect : Dialect) (env : Env) (n : Node) :
    Event.lineCount (n.eval dialect env).events = 0 := by
  simp [Event.lineCount, outputOf_eval]

theorem alongside_eval (dialect : Dialect) {env env' : Env} (h : Env.SameTypes env env')
    (n : Node) : (n.eval dialect env).Alongside (n.eval dialect env') := by
  fun_induction eval dialect env n with
  | case2 name =>
    intro _ _
    have hquiet : ∀ env : Env, Event.lineCount (env.look name).events = 0 :=
      fun env => lineCount_eval dialect env (.ident name)
    refine ⟨?_, (hquiet env).trans (hquiet env').symm⟩
    cases name with
    | scalar s => exact congrArg Except.ok (h s)
    | _ => rfl
  | case3 op operand ih =>
    refine ih.andThen fun a a' _ _ htype => ?_
    exact Outcome.alongside_of fun _ _ => type_applyUnary op htype
  | case4 op left right ihl ihr =>
    refine ihl.andThen fun a a' _ _ ha => ?_
    refine ihr.andThen fun b b' _ _ hb => ?_
    exact Outcome.alongside_of (alongside_applyBinary dialect op ha hb)
  | _ => exact fun _ _ => ⟨rfl, rfl⟩

end Node

/-! ## Prints -/

theorem Value.WellFormed.newline_notMem_render {v : Value} (h : v.WellFormed) :
    '\n' ∉ v.render.toList := by
  cases v with
  | int n => exact Numeral.newline_notMem_render n
  | bool b => cases b <;> decide
  | undefined => decide
  | text s => exact h.elim
  | null => exact h.elim

theorem Event.lineCount_printed {v : Value} (h : v.WellFormed) :
    lineCount [.printed (v.render ++ "\n")] = 1 := by
  simp [lineCount, output, List.count_eq_zero_of_not_mem h.newline_notMem_render]

namespace Node

theorem alongside_printAll {dialect : Dialect} {env env' : Env} (henv : env.WellFormed)
    (henv' : env'.WellFormed) (h : Env.SameTypes env env') {args : List Node}
    (hargs : ∀ e ∈ args, e.RegularExpr) :
    (printAll dialect env args).Alongside (printAll dialect env' args) := by
  induction args with
  | nil => exact fun _ _ => ⟨rfl, rfl⟩
  | cons arg args ih =>
    rw [List.forall_mem_cons] at hargs
    refine (alongside_eval dialect h arg).andThen fun v v' hv hv' htype => ?_
    have hwell : Safe (arg.eval dialect env).result := safe_eval henv hargs.1
    have hwell' : Safe (arg.eval dialect env').result := safe_eval henv' hargs.1
    rw [hv] at hwell
    rw [hv'] at hwell'
    have hline : Outcome.Alongside v.print v'.print := by
      rw [Value.print_of_legible (Value.WellFormed.legible hwell),
        Value.print_of_legible (Value.WellFormed.legible hwell')]
      intro _ _
      refine ⟨congrArg Except.ok htype, ?_⟩
      rw [Event.lineCount_printed hwell, Event.lineCount_printed hwell']
    exact hline.andThen fun _ _ _ _ _ => ih hargs.2

end Node

/-! ## Statements -/

/-- Unless one of them divides by zero, the two runs end in values of one type or the same failure,
    behind as many lines, and each name reads with the same type. -/
def Effect.Alongside (e e' : Effect) : Prop :=
  isDivision e.result = false → isDivision e'.result = false →
    e.result.map Value.type = e'.result.map Value.type ∧ Env.SameTypes e.env e'.env ∧
      Event.lineCount e.events = Event.lineCount e'.events

namespace Node

variable {settings : Settings} {env env' : Env} {last last' : Value}

theorem not_isDivision_of_binding {name : Json} {expr : Node}
    (h : isDivision ((binding name expr).exec settings env).result = false) :
    isDivision (expr.eval settings.dialect env).result = false := by
  simp only [exec] at h
  split at h
  · next hr => rwa [hr]
  · next hr _ => rw [hr]; rfl
  · next hr _ => rw [hr]; rfl

theorem alongside_exec (hbuiltins : settings.builtins = .standard) (henv : env.WellFormed)
    (henv' : env'.WellFormed) (h : Env.SameTypes env env') {s : Node} (hs : s.RegularStmt) :
    (s.exec settings env).Alongside (s.exec settings env') := by
  intro hdiv hdiv'
  cases hs with
  | @binding name expr he =>
    obtain ⟨htypes, hlines⟩ := alongside_eval settings.dialect h expr
      (not_isDivision_of_binding hdiv) (not_isDivision_of_binding hdiv')
    obtain ⟨e, hr, hr'⟩ | ⟨v, v', hr, hr', htype⟩ := types_cases htypes
    · simp only [exec, hr, hr', true_and]
      exact ⟨h, hlines⟩
    · simp only [exec, hr, hr', Json.name?, Event.lineCount_append, hlines]
      exact ⟨congrArg Except.ok htype, h.put name htype, rfl⟩
  | @print args hargs =>
    simp only [ofPrint, exec, builtin_print hbuiltins] at hdiv hdiv' ⊢
    obtain ⟨htypes, hlines⟩ := alongside_printAll henv henv' h hargs hdiv hdiv'
    exact ⟨htypes, h, hlines⟩
  | blank => exact ⟨rfl, h, rfl⟩

/-! ## Programs -/

theorem not_isDivision_of_cons {s : Node} {ss : List Node}
    (h : isDivision (execAll settings env last (s :: ss)).result = false) :
    isDivision (s.exec settings env).result = false := by
  simp only [execAll] at h
  split at h
  · exact h
  · next hr => rw [hr]; rfl

theorem not_isDivision_of_append {ss us : List Node}
    (h : isDivision (execAll settings env last (ss ++ us)).result = false) :
    isDivision (execAll settings env last ss).result = false := by
  rw [execAll_append] at h
  cases hr : (execAll settings env last ss).result with
  | error e => rwa [Effect.andThen_of_error hr, hr] at h
  | ok v => rfl

theorem alongside_execAll (hbuiltins : settings.builtins = .standard) (henv : env.WellFormed)
    (henv' : env'.WellFormed) (h : Env.SameTypes env env') (hlast : last.type = last'.type)
    {body : List Node} (hbody : ∀ s ∈ body, s.RegularStmt) :
    (execAll settings env last body).Alongside (execAll settings env' last' body) := by
  induction body generalizing env env' last last' with
  | nil => exact fun _ _ => ⟨congrArg Except.ok hlast, h, rfl⟩
  | cons s ss ih =>
    intro hdiv hdiv'
    rw [List.forall_mem_cons] at hbody
    obtain ⟨htypes, hafter, hlines⟩ := alongside_exec hbuiltins henv henv' h hbody.1
      (not_isDivision_of_cons hdiv) (not_isDivision_of_cons hdiv')
    obtain ⟨e, hr, hr'⟩ | ⟨v, v', hr, hr', htype⟩ := types_cases htypes
    · simp only [execAll, hr, hr', true_and]
      exact ⟨hafter, hlines⟩
    · have hwell := (safe_exec hbuiltins henv hbody.1).1
      have hwell' := (safe_exec hbuiltins henv' hbody.1).1
      simp only [execAll, hr, hr', Event.lineCount_append, Event.lineCount_finished, hlines]
        at hdiv hdiv' ⊢
      obtain ⟨htypes', hend, hlines'⟩ := ih hwell hwell' hafter htype hbody.2 hdiv hdiv'
      exact ⟨htypes', hend, by rw [hlines']⟩

/-- The statement that fails is the same: the two runs go side by side up to it and at it. -/
theorem FailsAt.alongside (hbuiltins : settings.builtins = .standard) (henv : env.WellFormed)
    (henv' : env'.WellFormed) (h : Env.SameTypes env env') {body : List Node}
    (hbody : ∀ s ∈ body, s.RegularStmt) {e : RunError} {k : Nat}
    (he : isDivision (.error e) = false)
    (hdiv : isDivision ((program body).run settings env').result = false)
    (hk : FailsAt settings env body e k) : FailsAt settings env' body e k := by
  obtain ⟨s, v, hget, hbefore, hs⟩ := hk
  have hsplit : body = body.take k ++ s :: body.drop (k + 1) := by
    obtain ⟨hlt, rfl⟩ := List.getElem?_eq_some_iff.mp hget
    rw [List.getElem_cons_drop, List.take_append_drop]
  have hfront : ∀ t ∈ body.take k, t.RegularStmt := fun t ht => hbody t (List.mem_of_mem_take ht)
  have hstmt : s.RegularStmt := hbody s (List.mem_of_getElem? hget)
  simp only [run] at hbefore hs hdiv
  rw [hsplit] at hdiv
  have hwell : (execAll settings env .undefined (body.take k)).env.WellFormed :=
    (safe_run hbuiltins henv (.program hfront)).1
  have hwell' : (execAll settings env' .undefined (body.take k)).env.WellFormed :=
    (safe_run hbuiltins henv' (.program hfront)).1
  obtain ⟨htypes, hafter, -⟩ := alongside_execAll hbuiltins henv henv' h rfl hfront
    (by rw [hbefore]; rfl) (not_isDivision_of_append hdiv)
  obtain ⟨_, hr, -⟩ | ⟨w, w', -, hbefore', -⟩ := types_cases htypes
  · cases hbefore.symm.trans hr
  · rw [execAll_append, Effect.andThen_of_ok hbefore'] at hdiv
    obtain ⟨htypes', -, -⟩ := alongside_exec hbuiltins hwell hwell' hafter hstmt
      (by rw [hs, he]) (not_isDivision_of_cons hdiv)
    obtain ⟨e', hr, hr'⟩ | ⟨_, _, hr, -, -⟩ := types_cases htypes'
    · obtain rfl := Except.error.inj (hs.symm.trans hr)
      exact ⟨s, w', hget, hbefore', hr'⟩
    · cases hs.symm.trans hr

/-- Two runs of a program from well-formed environments in which each name reads with the same type,
    neither of which divides by zero: they print as many lines and leave each name reading with the
    same type, and they end in values of one type or in the same mismatch of types at the same
    statement. -/
theorem types_do_not_depend_on_values (dialect : Dialect) (source : List Char) (body : List Node)
    (hsource : Program.ofSource source = .ok (.program body)) (env env' : Env)
    (henv : env.WellFormed) (henv' : env'.WellFormed) (htypes : Env.SameTypes env env')
    (hdiv : isDivision ((program body).run (.new dialect) env).result = false)
    (hdiv' : isDivision ((program body).run (.new dialect) env').result = false) :
    Event.lineCount ((program body).run (.new dialect) env).events =
        Event.lineCount ((program body).run (.new dialect) env').events ∧
      Env.SameTypes ((program body).run (.new dialect) env).env
        ((program body).run (.new dialect) env').env ∧
      ((∃ v v', ((program body).run (.new dialect) env).result = .ok v ∧
          ((program body).run (.new dialect) env').result = .ok v' ∧ v.type = v'.type) ∨
        ∃ x y k, ((program body).run (.new dialect) env).result =
            .error (.fault (.typeMismatch x y)) ∧
          ((program body).run (.new dialect) env').result = .error (.fault (.typeMismatch x y)) ∧
          FailsAt (.new dialect) env body (.fault (.typeMismatch x y)) k ∧
          FailsAt (.new dialect) env' body (.fault (.typeMismatch x y)) k) := by
  obtain ⟨hbody⟩ := Program.regular_of_ofSource hsource
  have hbuiltins : (Settings.new dialect).builtins = .standard := rfl
  obtain ⟨hresult, hafter, hlines⟩ :=
    alongside_execAll hbuiltins henv henv' htypes rfl hbody hdiv hdiv'
  refine ⟨hlines, hafter, ?_⟩
  obtain ⟨e, hr, hr'⟩ | ⟨v, v', hr, hr', htype⟩ := types_cases hresult
  · have hsafe : Safe ((program body).run (.new dialect) env).result :=
      (safe_run hbuiltins henv (.program hbody)).2
    obtain ⟨x, y, rfl⟩ : ∃ x y, e = .fault (.typeMismatch x y) :=
      exists_typeMismatch (hr ▸ hsafe) (hr ▸ hdiv)
    obtain ⟨k, hstops⟩ := exists_stopsAt hr
    exact .inr ⟨x, y, k, hr, hr', hstops.fails,
      hstops.fails.alongside hbuiltins henv henv' htypes hbody rfl hdiv'⟩
  · exact .inl ⟨v, v', hr, hr', htype⟩

/-- Two environments with other values, one of them with a name that the other lacks, and a program
    that divides one value by another and then fails at the second argument of a print. -/
theorem types_do_not_depend_on_values_at_print :
    ∃ x y k, FailsAt (.new .legacy)
        ((Table.empty.put (.text "a") (.int 7)).put (.text "b") (.int 2))
        [.ofBinding "c" (.ofBinary .div (.ofName "a") (.ofName "b")),
          .ofPrint [.ofBinary .ge (.ofName "c") (.ofName "a"), .ofUnary .not (.ofName "c")]]
        (.fault (.typeMismatch x y)) k ∧
      FailsAt (.new .legacy)
        (((Table.empty.put (.text "u") .undefined).put (.text "a") (.int (-2147483648))).put
          (.text "b") (.int (-1)))
        [.ofBinding "c" (.ofBinary .div (.ofName "a") (.ofName "b")),
          .ofPrint [.ofBinary .ge (.ofName "c") (.ofName "a"), .ofUnary .not (.ofName "c")]]
        (.fault (.typeMismatch x y)) k := by
  have hundefined : Env.SameTypes .empty (Table.empty.put (.text "u") .undefined) := by
    intro name
    rw [Env.valueOf_put]
    split <;> rfl
  have htypes : Env.SameTypes ((Table.empty.put (.text "a") (.int 7)).put (.text "b") (.int 2))
      (((Table.empty.put (.text "u") .undefined).put (.text "a") (.int (-2147483648))).put
        (.text "b") (.int (-1))) :=
    (hundefined.put _ (by rfl)).put _ (by rfl)
  have hword : ∀ n ∈ [7, 2, -2147483648, -1], (Value.int n).WellFormed := by
    simp only [Value.WellFormed]
    decide
  obtain ⟨-, -, ⟨v, -, hv, -, -⟩ | ⟨x, y, k, -, -, hfails, hfails'⟩⟩ :=
    types_do_not_depend_on_values .legacy "c = a / b\nprint c >= a, not c".toList
      [.ofBinding "c" (.ofBinary .div (.ofName "a") (.ofName "b")),
        .ofPrint [.ofBinary .ge (.ofName "c") (.ofName "a"), .ofUnary .not (.ofName "c")]]
      (by decide +kernel) _ _
      ((Env.wellFormed_empty.put (hword 7 (by decide))).put (hword 2 (by decide)))
      (((Env.wellFormed_empty.put (by trivial)).put (hword (-2147483648) (by decide))).put
        (hword (-1) (by decide)))
      htypes (by decide +kernel) (by decide +kernel)
  · cases hv
  · exact ⟨x, y, k, hfails, hfails'⟩

end Node

end LineScript
