-- SUMMARY: The legacy dialect is the standard dialect behind a renaming of three operators.
import LineScript.Proofs.TypeSafety

/-!
# The two dialects

Running a program in the legacy dialect is running it in the standard dialect with `<=`, `>=` and
`xor` renamed: the same events, the same bindings, and the same result or a failure at the same
node. Failures differ in one thing: an operator on two operands of one wrong type names the two
types the other way round.
-/

namespace LineScript

/-! ## The renaming -/

/-- The operator that does in the standard dialect what the operator does in the legacy one. -/
def BinaryOp.renamed : BinaryOp → BinaryOp
  | .le => .ge
  | .ge => .le
  | .xor => .or
  | op => op

/-- The symbol of an operator, renamed; what is no symbol of a renamed operator stays. -/
def renamedSymbol (op : Json) : Json :=
  if op = .text "<=" then .text ">="
  else if op = .text ">=" then .text "<="
  else if op = .text "xor" then .text "or"
  else op

namespace Node

mutual

/-- The tree with its binary operators renamed. -/
def renamed : Node → Node
  | .program body => .program (renamedAll body)
  | .binding name expr => .binding name (renamed expr)
  | .call name args => .call name (renamedAll args)
  | .blank => .blank
  | .binary op left right => .binary (renamedSymbol op) (renamed left) (renamed right)
  | .unary op operand => .unary op (renamed operand)
  | .literal v => .literal v
  | .ident name => .ident name
  | .atom a => .atom a
termination_by structural n => n

/-- Trees with their binary operators renamed. -/
def renamedAll : List Node → List Node
  | [] => []
  | n :: ns => renamed n :: renamedAll ns
termination_by structural ns => ns

end

mutual

/-- The tree has no operator that the renaming changes. -/
def isNeutral : Node → Bool
  | .program body => areNeutral body
  | .binding _ expr => isNeutral expr
  | .call _ args => areNeutral args
  | .binary op left right =>
    op ≠ .text "<=" && op ≠ .text ">=" && op ≠ .text "xor" && isNeutral left && isNeutral right
  | .unary _ operand => isNeutral operand
  | .blank | .literal _ | .ident _ | .atom _ => true
termination_by structural n => n

/-- The trees have no operator that the renaming changes. -/
def areNeutral : List Node → Bool
  | [] => true
  | n :: ns => isNeutral n && areNeutral ns
termination_by structural ns => ns

end

mutual

theorem renamed_of_isNeutral {n : Node} (h : n.isNeutral) : n.renamed = n := by
  cases n with
  | program body => rw [renamed, renamedAll_of_areNeutral h]
  | binding name expr =>
    have hexpr : expr.isNeutral := h
    rw [renamed, renamed_of_isNeutral hexpr]
  | call name args => rw [renamed, renamedAll_of_areNeutral h]
  | binary op left right =>
    simp only [isNeutral, Bool.and_eq_true, decide_eq_true_eq] at h
    obtain ⟨⟨⟨⟨hle, hge⟩, hxor⟩, hleft⟩, hright⟩ := h
    rw [renamed, renamed_of_isNeutral hleft, renamed_of_isNeutral hright, renamedSymbol,
      if_neg hle, if_neg hge, if_neg hxor]
  | unary op operand =>
    have hoperand : operand.isNeutral := h
    rw [renamed, renamed_of_isNeutral hoperand]
  | _ => rfl

theorem renamedAll_of_areNeutral {ns : List Node} (h : areNeutral ns) : renamedAll ns = ns := by
  cases ns with
  | nil => rfl
  | cons n ns =>
    rw [areNeutral, Bool.and_eq_true] at h
    rw [renamedAll, renamed_of_isNeutral h.1, renamedAll_of_areNeutral h.2]

end

@[simp] theorem typeName_renamed (n : Node) : n.renamed.typeName = n.typeName := by
  cases n <;> rfl

@[simp] theorem classText_renamed (n : Node) : n.renamed.classText = n.classText := by
  cases n <;> rfl

end Node

/-! ## The place of a failure -/

/-- A place in a tree: the way down to a node, and the operands if a binary operator is applied. -/
structure Site where
  path : List Nat
  operands : Option (Value × Value)
  deriving DecidableEq, Repr

namespace Site

/-- The top of the tree. -/
def top : Site := ⟨[], none⟩

/-- The binary operator on top of the tree, applied to operands. -/
def applied (a b : Value) : Site := ⟨[], some (a, b)⟩

/-- The place in a tree that is the part of number `i` of another one. -/
def below (i : Nat) (s : Site) : Site := { s with path := i :: s.path }

/-- A binary operator is applied to two integers or to two truth values. -/
def isMatched (s : Site) : Bool :=
  match s.operands with
  | some (.int _, .int _) | some (.bool _, .bool _) => true
  | _ => false

end Site

namespace Node

/-- The place where the evaluation of an expression fails, if it does. -/
def evalSite (dialect : Dialect) (env : Env) : Node → Site
  | .unary _ operand =>
    match (operand.eval dialect env).result with
    | .error _ => (evalSite dialect env operand).below 0
    | .ok _ => .top
  | .binary _ left right =>
    match (left.eval dialect env).result, (right.eval dialect env).result with
    | .error _, _ => (evalSite dialect env left).below 0
    | .ok _, .error _ => (evalSite dialect env right).below 1
    | .ok a, .ok b => .applied a b
  | _ => .top
termination_by structural n => n

/-- The place where a print fails, if it does; its first argument here is the one of number `i`. An
    argument whose value cannot be written is such a place, too. -/
def printSite (dialect : Dialect) (env : Env) (i : Nat) : List Node → Site
  | [] => .top
  | arg :: args =>
    match (arg.eval dialect env).result with
    | .error _ => (arg.evalSite dialect env).below i
    | .ok v => if v.Legible then printSite dialect env (i + 1) args else Site.top.below i

/-- The place where a statement fails, if it does. -/
def execSite (settings : Settings) (env : Env) : Node → Site
  | .binding _ expr =>
    match (expr.eval settings.dialect env).result with
    | .error _ => (expr.evalSite settings.dialect env).below 0
    | .ok _ => .top
  | .call name args =>
    match settings.builtin name with
    | .error _ => .top
    | .ok .print => printSite settings.dialect env 0 args
  | _ => .top

/-- The place where statements fail, if one does; the first one here is the one of number `k`. -/
def execAllSite (settings : Settings) (env : Env) (k : Nat) : List Node → Site
  | [] => .top
  | s :: ss =>
    match (s.exec settings env).result with
    | .error _ => (s.execSite settings env).below k
    | .ok _ => execAllSite settings (s.exec settings env).env (k + 1) ss

/-- The place where a program fails, if it does: the number of the statement comes first. -/
def runSite (settings : Settings) (env : Env) : Node → Site
  | .program body => execAllSite settings env 0 body
  | _ => .top

end Node

/-! ## The difference between the dialects -/

/-- The fault with the two types of a mismatch the other way round. -/
def Fault.reversed : Fault → Fault
  | .typeMismatch expected actual => .typeMismatch actual expected
  | f => f

namespace RunError

/-- What an error of the legacy dialect at a place is in the standard dialect. -/
def modern (site : Site) : RunError → RunError
  | .fault f => .fault (if site.isMatched then f.reversed else f)
  | .notAStatement n => .notAStatement n.renamed
  | .notAnExpression n => .notAnExpression n.renamed
  | e => e

@[simp] theorem modern_below (i : Nat) (site : Site) : modern (site.below i) = modern site := rfl

/-- Only a mismatch of types reads differently in the two dialects. -/
theorem message?_modern {e : RunError} (h : ∀ x y, e ≠ .fault (.typeMismatch x y)) (site : Site) :
    (e.modern site).message? = e.message? := by
  cases e with
  | fault f =>
    cases f with
    | typeMismatch x y => exact absurd rfl (h x y)
    | _ => simp [modern, Fault.reversed]
  | notAStatement n => simp [modern, message?]
  | notAnExpression n => simp [modern, message?]
  | _ => rfl

end RunError

/-- What an outcome of the legacy dialect is in the standard dialect, if a failure is at the place. -/
def Outcome.modern {α : Type} (site : Site) (o : Outcome α) : Outcome α :=
  ⟨o.events, o.result.mapError (RunError.modern site)⟩

/-- What an effect of the legacy dialect is in the standard dialect, if a failure is at the place. -/
def Effect.modern (site : Site) (e : Effect) : Effect :=
  ⟨e.events, e.env, e.result.mapError (RunError.modern site)⟩

/-- Two outcomes one after the other; what the second is in the standard dialect matters only if it
    is reached. -/
theorem Outcome.modern_andThen {α β : Type} {o : Outcome α} {f g : α → Outcome β} {site site' : Site}
    (herror : ∀ e, o.result = .error e → e.modern site = e.modern site')
    (hok : ∀ a, o.result = .ok a → g a = (f a).modern site') :
    (o.modern site).andThen g = (o.andThen f).modern site' := by
  cases hr : o.result with
  | error e => simp [andThen, modern, hr, Except.mapError, herror e hr]
  | ok a => simp [andThen, modern, hr, Except.mapError, hok a hr]

/-! ## Operators -/

theorem BinaryOp.ofJson?_renamedSymbol (op : Json) :
    BinaryOp.ofJson? (renamedSymbol op) = (BinaryOp.ofJson? op).map BinaryOp.renamed := by
  unfold renamedSymbol
  split
  · next h => rw [h]; decide
  · next hle =>
    split
    · next h => rw [h]; decide
    · next hge =>
      split
      · next h => rw [h]; decide
      · next hxor =>
        -- What is left is an operator that keeps its name, or no operator.
        cases hop : BinaryOp.ofJson? op with
        | none => rfl
        | some o =>
          have hsymbol : op = .text o.symbol := by
            unfold BinaryOp.ofJson? at hop
            split at hop
            · next s =>
              have hfound := List.find?_some hop
              rw [of_decide_eq_true hfound]
            · cases hop
          cases o with
          | le => exact absurd hsymbol hle
          | ge => exact absurd hsymbol hge
          | xor => exact absurd hsymbol hxor
          | _ => rfl

theorem BinaryOp.applyInt_renamed (op : BinaryOp) (a b : Int) :
    op.renamed.applyInt .standard a b = (op.applyInt .legacy a b).mapError Fault.reversed := by
  cases op with
  | div =>
    simp only [renamed, applyInt]
    split <;> rfl
  | mod =>
    simp only [renamed, applyInt]
    split <;> rfl
  | _ => rfl

theorem BinaryOp.applyBool_renamed (op : BinaryOp) (a b : Bool) :
    op.renamed.applyBool .standard a b = (op.applyBool .legacy a b).mapError Fault.reversed := by
  cases op <;> rfl

theorem renamedSymbol_of_unknown {op : Json} (h : BinaryOp.ofJson? op = none) :
    renamedSymbol op = op := by
  have hknown : ∀ o : BinaryOp, op ≠ .text o.symbol := by
    rintro o rfl
    rw [BinaryOp.ofJson?_symbol] at h
    cases h
  have hle : op ≠ .text "<=" := hknown .le
  have hge : op ≠ .text ">=" := hknown .ge
  have hxor : op ≠ .text "xor" := hknown .xor
  rw [renamedSymbol, if_neg hle, if_neg hge, if_neg hxor]

theorem mapError_reversed {site : Site} (h : site.isMatched) (r : Except Fault Value) :
    (r.mapError Fault.reversed).mapError RunError.fault =
      (r.mapError RunError.fault).mapError (RunError.modern site) := by
  cases r with
  | ok v => rfl
  | error f => simp [Except.mapError, RunError.modern, h]

theorem applyBinary_renamed (op : Json) (a b : Value) :
    applyBinary .standard (renamedSymbol op) a b =
      (applyBinary .legacy op a b).mapError (RunError.modern (.applied a b)) := by
  unfold applyBinary
  split
  · rw [BinaryOp.ofJson?_renamedSymbol]
    cases hop : BinaryOp.ofJson? op with
    | none =>
      rw [renamedSymbol_of_unknown hop]
      rfl
    | some o =>
      simp only [Option.map_some, BinaryOp.applyInt_renamed]
      exact mapError_reversed rfl _
  · rw [BinaryOp.ofJson?_renamedSymbol]
    cases hop : BinaryOp.ofJson? op with
    | none =>
      rw [renamedSymbol_of_unknown hop]
      rfl
    | some o =>
      simp only [Option.map_some, BinaryOp.applyBool_renamed]
      exact mapError_reversed rfl _
  · next hint hbool =>
    have hmatched : (Site.applied a b).isMatched = false := by
      unfold Site.isMatched
      split
      · next heq =>
        cases heq
        exact (hint _ _ rfl rfl).elim
      · next heq =>
        cases heq
        exact (hbool _ _ rfl rfl).elim
      · rfl
    simp [Except.mapError, RunError.modern, hmatched]

theorem applyUnary_modern (op : Json) (v : Value) :
    (applyUnary op v).mapError (RunError.modern .top) = applyUnary op v := by
  unfold applyUnary
  split
  · next o _ => cases o.apply v <;> rfl
  · rfl

/-! ## Runs -/

namespace Node

theorem eval_renamed (env : Env) (n : Node) :
    n.renamed.eval .standard env = (n.eval .legacy env).modern (n.evalSite .legacy env) := by
  fun_induction eval .legacy env n with
  | case2 name =>
    simp only [renamed, eval, Env.look]
    split <;> rfl
  | case3 op operand ih =>
    rw [renamed, eval, ih]
    apply Outcome.modern_andThen
    · intro e he
      simp [evalSite, he]
    · intro v hv
      simp [evalSite, hv, Outcome.of, Outcome.modern, applyUnary_modern]
  | case4 op left right ihl ihr =>
    rw [renamed, eval, ihl, ihr]
    apply Outcome.modern_andThen
    · intro e he
      simp [evalSite, he]
    · intro a ha
      apply Outcome.modern_andThen
      · intro e he
        simp [evalSite, ha, he]
      · intro b hb
        simp [evalSite, ha, hb, Outcome.of, Outcome.modern, applyBinary_renamed]
  | _ => rfl

/-- The place of a failure depends only on which parts fail and on the values of the others. -/
theorem evalSite_renamed (env : Env) (n : Node) :
    n.renamed.evalSite .standard env = n.evalSite .legacy env := by
  fun_induction evalSite .legacy env n with
  | case1 op operand e he ih =>
    simp [renamed, evalSite, eval_renamed, Outcome.modern, Except.mapError, he, ih]
  | case2 op operand v hv =>
    simp [renamed, evalSite, eval_renamed, Outcome.modern, Except.mapError, hv]
  | case3 op left right e he ih =>
    simp [renamed, evalSite, eval_renamed, Outcome.modern, Except.mapError, he, ih]
  | case4 op left right a e ha he ih =>
    simp [renamed, evalSite, eval_renamed, Outcome.modern, Except.mapError, ha, he, ih]
  | case5 op left right a b ha hb =>
    simp [renamed, evalSite, eval_renamed, Outcome.modern, Except.mapError, ha, hb]
  | case6 n hunary hbinary =>
    cases n with
    | unary op operand => exact (hunary op operand rfl).elim
    | binary op left right => exact (hbinary op left right rfl).elim
    | _ => rfl

theorem printAll_renamed (env : Env) (i : Nat) (args : List Node) :
    printAll .standard env (renamedAll args) =
      (printAll .legacy env args).modern (printSite .legacy env i args) := by
  induction args generalizing i with
  | nil => rfl
  | cons arg args ih =>
    rw [renamedAll, printAll, eval_renamed]
    apply Outcome.modern_andThen
    · intro e he
      simp [printSite, he]
    · intro v hv
      rw [ih (i + 1)]
      by_cases hlegible : v.Legible
      · simp [printSite, hv, hlegible, Value.print_of_legible, Outcome.andThen, Outcome.modern]
      · simp [hlegible, Value.print_of_not_legible, Outcome.andThen, Outcome.modern, Outcome.of,
          Except.mapError, RunError.modern]

theorem printSite_renamed (env : Env) (i : Nat) (args : List Node) :
    printSite .standard env i (renamedAll args) = printSite .legacy env i args := by
  induction args generalizing i with
  | nil => rfl
  | cons arg args ih =>
    rw [renamedAll]
    cases hr : (arg.eval .legacy env).result with
    | error e =>
      simp [printSite, eval_renamed, evalSite_renamed, Outcome.modern, Except.mapError, hr]
    | ok v => simp [printSite, eval_renamed, Outcome.modern, Except.mapError, hr, ih]

theorem modern_of_builtin_error {settings : Settings} {name : Json} {e : RunError}
    (h : settings.builtin name = .error e) : e.modern .top = e := by
  unfold Settings.builtin at h
  split at h
  · cases h
    rfl
  · split at h
    · cases h
    · cases h
      rfl

variable (builtins : Builtins)

theorem exec_renamed (env : Env) (n : Node) :
    n.renamed.exec ⟨.standard, builtins⟩ env =
      (n.exec ⟨.legacy, builtins⟩ env).modern (n.execSite ⟨.legacy, builtins⟩ env) := by
  cases n with
  | binding name expr =>
    cases hr : (expr.eval .legacy env).result with
    | error e =>
      simp [renamed, exec, execSite, eval_renamed, Outcome.modern, Effect.modern, Except.mapError, hr]
    | ok v =>
      simp only [renamed, exec, execSite, eval_renamed, Outcome.modern, Except.mapError, hr]
      cases name.name? <;> rfl
  | call name args =>
    have hbuiltin : (⟨.standard, builtins⟩ : Settings).builtin name =
        (⟨.legacy, builtins⟩ : Settings).builtin name := rfl
    simp only [renamed, exec, execSite, hbuiltin]
    cases hb : (⟨.legacy, builtins⟩ : Settings).builtin name with
    | error e => simp [Effect.modern, Except.mapError, modern_of_builtin_error hb]
    | ok b => simp [printAll_renamed env 0, Outcome.modern, Effect.modern]
  | _ => rfl

theorem execSite_renamed (env : Env) (n : Node) :
    n.renamed.execSite ⟨.standard, builtins⟩ env = n.execSite ⟨.legacy, builtins⟩ env := by
  cases n with
  | binding name expr =>
    cases hr : (expr.eval .legacy env).result with
    | error e =>
      simp [renamed, execSite, eval_renamed, evalSite_renamed, Outcome.modern, Except.mapError, hr]
    | ok v => simp [renamed, execSite, eval_renamed, Outcome.modern, Except.mapError, hr]
  | call name args =>
    have hbuiltin : (⟨.standard, builtins⟩ : Settings).builtin name =
        (⟨.legacy, builtins⟩ : Settings).builtin name := rfl
    simp only [renamed, execSite, printSite_renamed, hbuiltin]
  | _ => rfl

theorem execAll_renamed (env : Env) (last : Value) (k : Nat) (ss : List Node) :
    execAll ⟨.standard, builtins⟩ env last (renamedAll ss) =
      (execAll ⟨.legacy, builtins⟩ env last ss).modern
        (execAllSite ⟨.legacy, builtins⟩ env k ss) := by
  induction ss generalizing env last k with
  | nil => rfl
  | cons s ss ih =>
    rw [renamedAll]
    cases hr : (s.exec ⟨.legacy, builtins⟩ env).result with
    | error e => simp [execAll, execAllSite, exec_renamed, Effect.modern, Except.mapError, hr]
    | ok v =>
      simp [execAll, execAllSite, exec_renamed, Effect.modern, Except.mapError, hr, ih _ _ (k + 1)]

theorem execAllSite_renamed (env : Env) (k : Nat) (ss : List Node) :
    execAllSite ⟨.standard, builtins⟩ env k (renamedAll ss) =
      execAllSite ⟨.legacy, builtins⟩ env k ss := by
  induction ss generalizing env k with
  | nil => rfl
  | cons s ss ih =>
    rw [renamedAll]
    cases hr : (s.exec ⟨.legacy, builtins⟩ env).result with
    | error e =>
      simp [execAllSite, exec_renamed, execSite_renamed, Effect.modern, Except.mapError, hr]
    | ok v => simp [execAllSite, exec_renamed, Effect.modern, Except.mapError, hr, ih]

theorem run_renamed (env : Env) (n : Node) :
    n.renamed.run ⟨.standard, builtins⟩ env =
      (n.run ⟨.legacy, builtins⟩ env).modern (n.runSite ⟨.legacy, builtins⟩ env) := by
  cases n with
  | program body => exact execAll_renamed builtins env .undefined 0 body
  | _ => rfl

theorem runSite_renamed (env : Env) (n : Node) :
    n.renamed.runSite ⟨.standard, builtins⟩ env = n.runSite ⟨.legacy, builtins⟩ env := by
  cases n with
  | program body => exact execAllSite_renamed builtins env 0 body
  | _ => rfl

/-- A tree runs in the legacy dialect as its renaming runs in the standard one: the same events and
    bindings, and the same value or a failure at the same place. Errors other than mismatches of
    types read the same, and mismatches are the same but for one case: they are reversed where a
    binary operator is applied to two integers or to two truth values. So a tree without the renamed
    operators runs in both dialects alike. -/
theorem run_legacy_eq_renamed (builtins : Builtins) (env : Env) (n : Node) :
    n.renamed.run ⟨.standard, builtins⟩ env =
      (n.run ⟨.legacy, builtins⟩ env).modern (n.runSite ⟨.legacy, builtins⟩ env) ∧
    n.renamed.runSite ⟨.standard, builtins⟩ env = n.runSite ⟨.legacy, builtins⟩ env ∧
    (∀ e, (n.run ⟨.legacy, builtins⟩ env).result = .error e →
      (∀ x y, e ≠ .fault (.typeMismatch x y)) →
      (e.modern (n.runSite ⟨.legacy, builtins⟩ env)).message? = e.message?) ∧
    (n.isNeutral →
      n.run ⟨.standard, builtins⟩ env =
        (n.run ⟨.legacy, builtins⟩ env).modern (n.runSite ⟨.legacy, builtins⟩ env) ∧
      n.runSite ⟨.standard, builtins⟩ env = n.runSite ⟨.legacy, builtins⟩ env) := by
  refine ⟨run_renamed builtins env n, runSite_renamed builtins env n, ?_, ?_⟩
  · intro e _ hmismatch
    exact RunError.message?_modern hmismatch _
  · intro hneutral
    have hrun := run_renamed builtins env n
    have hsite := runSite_renamed builtins env n
    rw [renamed_of_isNeutral hneutral] at hrun hsite
    exact ⟨hrun, hsite⟩

/-- A sum of two truth values as the second argument of a print, whose mismatch is reversed; and a
    statement in the place of an operand of `xor`, of which both dialects say the same. -/
theorem run_legacy_eq_renamed_at_argument :
    ((program [.ofPrint [.literal (.int 1), .ofBinary .add (.literal (.bool true))
        (.literal (.bool false))]]).run (.new .standard) .empty =
      ((program [.ofPrint [.literal (.int 1), .ofBinary .add (.literal (.bool true))
        (.literal (.bool false))]]).run (.new .legacy) .empty).modern
          ⟨[0, 1], some (.bool true, .bool false)⟩ ∧
      ((program [.ofPrint [.literal (.int 1), .ofBinary .add (.literal (.bool true))
        (.literal (.bool false))]]).run (.new .legacy) .empty).result =
          .error (.fault (.typeMismatch .boolean .integer))) ∧
    (RunError.modern ⟨[0, 0, 1], none⟩ (.notAnExpression (.ofPrint []))).message? =
      some "evaluate: unexpected node type <class 'plinth.ast.BuiltinCall'>" := by
  refine ⟨⟨((run_legacy_eq_renamed .standard .empty _).2.2.2 (by decide)).1, by decide⟩, ?_⟩
  have hfails : ((program [.ofBinding "x" (.ofBinary .xor (.literal (.bool true))
      (.ofPrint []))]).run (.new .legacy) .empty).result =
      .error (.notAnExpression (.ofPrint [])) := by decide
  exact (run_legacy_eq_renamed .standard .empty _).2.2.1 _ hfails (by simp)

end Node

end LineScript
