-- SUMMARY: Runs of programs keep values in range and fail in two ways only.
import LineScript.Proofs.Legibility
import LineScript.Session

/-!
# Type safety

A program of known operators, literals in range and calls of `print` keeps an environment of
integers in range, truth values and absent values, whether it runs to its end or fails, and it
fails only by operands of the wrong types or a division by zero. Programs that come from source
text are of that form, so the invariant holds along every session of them.
-/

namespace LineScript

open Grammar

/-! ## Values in range -/

/-- The value is an integer in range, a truth value, or no value. -/
def Value.WellFormed : Value → Prop
  | .int n => Word32.Fits n
  | .bool _ | .undefined => True
  | .text _ | .null => False

/-- All values of the environment are well formed. -/
def Env.WellFormed (env : Env) : Prop := ∀ e ∈ env.entries, e.2.WellFormed

/-- The type of a well-formed value. -/
def ValueType.IsProper (t : ValueType) : Prop := t = .integer ∨ t = .boolean ∨ t = .undefined

/-- The fault is a division by zero, or a mismatch of two types of well-formed values, which are
    different unless both operands had no value. -/
def Fault.IsProper : Fault → Prop
  | .typeMismatch expected actual =>
    expected.IsProper ∧ actual.IsProper ∧ (expected = actual → expected = .undefined)
  | .divisionByZero _ => True
  | .unknownMethod _ => False

/-- The result is a well-formed value or a proper fault. -/
def Safe : Except RunError Value → Prop
  | .ok v => v.WellFormed
  | .error (.fault f) => f.IsProper
  | .error _ => False

theorem Value.WellFormed.isProper_type {v : Value} (h : v.WellFormed) : v.type.IsProper := by
  cases v with
  | int n => exact .inl rfl
  | bool b => exact .inr (.inl rfl)
  | undefined => exact .inr (.inr rfl)
  | text s => exact h.elim
  | null => exact h.elim

theorem Env.wellFormed_empty : Env.WellFormed .empty := fun _ he => absurd he List.not_mem_nil

theorem Env.WellFormed.put {env : Env} {name : Scalar} {v : Value} (h : env.WellFormed)
    (hv : v.WellFormed) : Env.WellFormed (Table.put env name v) :=
  Table.forall_mem_put h name hv

theorem Value.WellFormed.legible {v : Value} (h : v.WellFormed) : v.Legible := by
  cases v with
  | int n => exact Word32.Fits.legible h
  | _ => trivial

theorem Env.WellFormed.legible {env : Env} (h : env.WellFormed) : env.Legible :=
  fun e he => (h e he).legible

/-! ## Operators -/

/-- A remainder lies between the dividend and zero, so it needs no wrapping. -/
theorem Word32.fits_tmod {a : Int} (b : Int) (ha : Word32.Fits a) : Word32.Fits (a.tmod b) := by
  have habs : (a.tmod b).natAbs ≤ a.natAbs := by
    rw [Int.natAbs_tmod]
    exact Nat.mod_le _ _
  have hsign : 0 ≤ a → 0 ≤ a.tmod b := Int.tmod_nonneg b
  unfold Word32.Fits Word32.least Word32.greatest at ha ⊢
  have hneg : a ≤ 0 → a.tmod b ≤ 0 := by
    intro h
    have hflip := Int.tmod_nonneg b (show 0 ≤ -a by omega)
    rw [Int.neg_tmod] at hflip
    omega
  omega

theorem Dialect.isProper_mismatch {dialect : Dialect} {wanted got : ValueType}
    (hwanted : wanted.IsProper) (hgot : got.IsProper) (hne : wanted ≠ got) :
    (dialect.mismatch wanted got).IsProper := by
  cases dialect with
  | standard => exact ⟨hwanted, hgot, fun h => absurd h hne⟩
  | legacy => exact ⟨hgot, hwanted, fun h => absurd h.symm hne⟩

theorem UnaryOp.ofJson?_symbol (op : UnaryOp) : UnaryOp.ofJson? (.text op.symbol) = some op := by
  cases op <;> decide

theorem BinaryOp.ofJson?_symbol (op : BinaryOp) : BinaryOp.ofJson? (.text op.symbol) = some op := by
  cases op <;> decide

theorem UnaryOp.safe_apply {op : UnaryOp} {v : Value} (hv : v.WellFormed) :
    Safe ((op.apply v).mapError .fault) := by
  have hinteger : ValueType.integer.IsProper := .inl rfl
  have hboolean : ValueType.boolean.IsProper := .inr (.inl rfl)
  have htype := hv.isProper_type
  cases op with
  | neg =>
    cases v with
    | int n => exact Word32.fits_wrap (-n)
    | _ => exact ⟨hinteger, htype, fun h => nomatch h⟩
  | pos =>
    cases v with
    | int n => exact hv
    | _ => exact ⟨hinteger, htype, fun h => nomatch h⟩
  | not =>
    cases v with
    | bool b => trivial
    | _ => exact ⟨hboolean, htype, fun h => nomatch h⟩

theorem BinaryOp.safe_applyInt {op : BinaryOp} {dialect : Dialect} {a b : Int}
    (ha : Word32.Fits a) : Safe ((op.applyInt dialect a b).mapError .fault) := by
  have hmismatch : (dialect.mismatch .boolean .integer).IsProper :=
    Dialect.isProper_mismatch (.inr (.inl rfl)) (.inl rfl) (by decide)
  cases op with
  | add => exact Word32.fits_wrap (a + b)
  | sub => exact Word32.fits_wrap (a - b)
  | mul => exact Word32.fits_wrap (a * b)
  | div =>
    simp only [applyInt, Word32.quotient?]
    split
    · next q _ => exact Word32.fits_wrap q
    · trivial
  | mod =>
    simp only [applyInt, Word32.remainder?]
    split
    · next r hr =>
      split at hr
      · cases hr
      · cases hr
        exact Word32.fits_tmod b ha
    · trivial
  | le => cases dialect <;> trivial
  | ge => cases dialect <;> trivial
  | and => exact hmismatch
  | or => exact hmismatch
  | xor => exact hmismatch
  | _ => trivial

theorem BinaryOp.safe_applyBool (op : BinaryOp) (dialect : Dialect) (a b : Bool) :
    Safe ((op.applyBool dialect a b).mapError .fault) := by
  have hmismatch : (dialect.mismatch .integer .boolean).IsProper :=
    Dialect.isProper_mismatch (.inl rfl) (.inr (.inl rfl)) (by decide)
  cases op with
  | and => trivial
  | or => trivial
  | xor => cases dialect <;> trivial
  | _ => exact hmismatch

theorem safe_applyUnary {op : UnaryOp} {v : Value} (hv : v.WellFormed) :
    Safe (applyUnary (.text op.symbol) v) := by
  simp only [applyUnary, UnaryOp.ofJson?_symbol]
  exact UnaryOp.safe_apply hv

/-- Two operands of one type are handed to the operator, and two of different types are the fault.
    Only operands without a value are of one type and still a fault. -/
theorem safe_applyBinary {dialect : Dialect} {op : BinaryOp} {a b : Value} (ha : a.WellFormed)
    (hb : b.WellFormed) : Safe (applyBinary dialect (.text op.symbol) a b) := by
  unfold applyBinary
  simp only [BinaryOp.ofJson?_symbol]
  split
  · exact BinaryOp.safe_applyInt ha
  · exact BinaryOp.safe_applyBool op dialect _ _
  · next hint hbool =>
    refine ⟨ha.isProper_type, hb.isProper_type, ?_⟩
    intro htype
    cases a with
    | int n =>
      cases b with
      | int m => exact (hint n m rfl rfl).elim
      | _ => cases htype
    | bool p =>
      cases b with
      | bool q => exact (hbool p q rfl rfl).elim
      | _ => cases htype
    | undefined => rfl
    | text s => exact ha.elim
    | null => exact ha.elim

/-! ## Regular trees -/

namespace Node

/-- The tree is an expression of known operators and literals in range. -/
inductive RegularExpr : Node → Prop where
  | int {n : Int} (hn : Word32.Fits n) : RegularExpr (.literal (.int n))
  | bool (b : Bool) : RegularExpr (.literal (.bool b))
  | ident (name : Scalar) : RegularExpr (.ident (.scalar name))
  | unary (op : UnaryOp) {e : Node} (he : RegularExpr e) : RegularExpr (.ofUnary op e)
  | binary (op : BinaryOp) {a b : Node} (ha : RegularExpr a) (hb : RegularExpr b) :
      RegularExpr (.ofBinary op a b)

/-- The tree is a statement whose calls are of `print`. -/
inductive RegularStmt : Node → Prop where
  | binding (name : Scalar) {e : Node} (he : RegularExpr e) :
      RegularStmt (.binding (.scalar name) e)
  | print {args : List Node} (hargs : ∀ e ∈ args, RegularExpr e) : RegularStmt (.ofPrint args)
  | blank : RegularStmt .blank

/-- The tree is a program of regular statements. -/
inductive Regular : Node → Prop where
  | program {body : List Node} (hbody : ∀ s ∈ body, RegularStmt s) : Regular (.program body)

end Node

/-! Source text gives regular trees only, which is an induction over its derivation. -/

namespace Grammar

mutual

theorem Primary.regularExpr {ts : List Token} {e : Node} : Primary ts e → e.RegularExpr
  | .name _ => .ident _
  | .number _ _ hfits => .int hfits
  | .true _ | .false _ => .bool _
  | .group _ he _ => he.regularExpr
  | .unary _ he => .unary _ he.regularExpr
termination_by structural h => h

theorem Expr.regularExpr {ts : List Token} {e : Node} : Expr ts e → e.RegularExpr
  | .primary he => he.regularExpr
  | .binary ha _ hb => .binary _ ha.regularExpr hb.regularExpr
termination_by structural h => h

end

theorem Args.regularExpr {ts : List Token} {es : List Node} (h : Args ts es) :
    ∀ e ∈ es, e.RegularExpr := by
  induction h with
  | one he => exact List.forall_mem_singleton.mpr he.regularExpr
  | more he _ _ ih => exact List.forall_mem_cons.mpr ⟨he.regularExpr, ih⟩

theorem Stmt.regularStmt {ts : List Token} {n : Node} (h : Stmt ts n) : n.RegularStmt := by
  cases h with
  | const _ _ _ he => exact .binding _ he.regularExpr
  | binding _ _ he => exact .binding _ he.regularExpr
  | print _ hes => exact .print hes.regularExpr
  | blank => exact .blank

theorem Body.regularStmt {s : Stream' Token} {body : List Node} (h : Body s body) :
    ∀ n ∈ body, n.RegularStmt := by
  induction h with
  | done _ => exact List.forall_mem_nil _
  | line _ hn _ _ ih => exact List.forall_mem_cons.mpr ⟨hn.regularStmt, ih⟩

end Grammar

theorem Program.regular_of_ofSource {source : List Char} {tree : Node}
    (h : Program.ofSource source = .ok tree) : tree.Regular := by
  unfold Program.ofSource at h
  split at h
  · cases h
  · obtain ⟨body, hbody, rfl⟩ := Program.ofTokens_eq_ok_iff.mp h
    exact .program hbody.regularStmt

/-! ## Runs -/

theorem Outcome.safe_andThen {o : Outcome Value} {f : Value → Outcome Value} (ho : Safe o.result)
    (hf : ∀ v, v.WellFormed → Safe (f v).result) : Safe (o.andThen f).result := by
  unfold Outcome.andThen
  cases hr : o.result with
  | error e =>
    rw [hr] at ho
    exact ho
  | ok v =>
    rw [hr] at ho
    exact hf v ho

theorem Env.safe_look {env : Env} (henv : env.WellFormed) (name : Scalar) :
    Safe (env.look (.scalar name)).result := by
  simp only [Env.look, Json.name?, Env.read?]
  split
  · trivial
  · cases hv : env.get? name with
    | none => trivial
    | some v => exact Table.of_get? henv hv

namespace Node

theorem safe_eval {dialect : Dialect} {env : Env} {n : Node} (henv : env.WellFormed)
    (hn : n.RegularExpr) : Safe (n.eval dialect env).result := by
  induction hn with
  | int hfits => exact hfits
  | bool b => trivial
  | ident name => exact Env.safe_look henv name
  | unary op _ ih => exact Outcome.safe_andThen ih fun v hv => safe_applyUnary hv
  | binary op _ _ iha ihb =>
    refine Outcome.safe_andThen iha fun a ha => ?_
    exact Outcome.safe_andThen ihb fun b hb => safe_applyBinary ha hb

theorem safe_printAll {dialect : Dialect} {env : Env} {args : List Node} (henv : env.WellFormed)
    (hargs : ∀ e ∈ args, e.RegularExpr) : Safe (printAll dialect env args).result := by
  induction args with
  | nil => trivial
  | cons arg args ih =>
    rw [List.forall_mem_cons] at hargs
    refine Outcome.safe_andThen (safe_eval henv hargs.1) fun v hv => ?_
    rw [Value.print_of_legible hv.legible]
    exact Outcome.safe_andThen hv fun _ _ => ih hargs.2

theorem builtin_print {settings : Settings} (hbuiltins : settings.builtins = .standard) :
    settings.builtin (.text "print") = .ok .print := by
  simp [Settings.builtin, Json.name?, hbuiltins, Builtins.standard, Builtin.name]

/-- What a statement leaves behind, whether it failed or not. -/
theorem safe_exec {settings : Settings} {env : Env} {n : Node}
    (hbuiltins : settings.builtins = .standard) (henv : env.WellFormed) (hn : n.RegularStmt) :
    (n.exec settings env).env.WellFormed ∧ Safe (n.exec settings env).result := by
  cases hn with
  | @binding name e he =>
    have hvalue : Safe (e.eval settings.dialect env).result := safe_eval henv he
    simp only [exec, Json.name?]
    cases hr : (e.eval settings.dialect env).result with
    | error err =>
      rw [hr] at hvalue
      exact ⟨henv, hvalue⟩
    | ok v =>
      rw [hr] at hvalue
      exact ⟨henv.put hvalue, hvalue⟩
  | @print args hargs =>
    simp only [ofPrint, exec, builtin_print hbuiltins]
    exact ⟨henv, safe_printAll henv hargs⟩
  | blank => exact ⟨henv, trivial⟩

theorem safe_execAll {settings : Settings} {env : Env} {last : Value} {body : List Node}
    (hbuiltins : settings.builtins = .standard) (henv : env.WellFormed) (hlast : last.WellFormed)
    (hbody : ∀ s ∈ body, s.RegularStmt) :
    (execAll settings env last body).env.WellFormed ∧
      Safe (execAll settings env last body).result := by
  induction body generalizing env last with
  | nil => exact ⟨henv, hlast⟩
  | cons s ss ih =>
    rw [List.forall_mem_cons] at hbody
    obtain ⟨hfirst, hresult⟩ := safe_exec hbuiltins henv hbody.1
    simp only [execAll]
    cases hr : (s.exec settings env).result with
    | error e =>
      refine ⟨hfirst, ?_⟩
      rwa [hr] at hresult ⊢
    | ok v =>
      rw [hr] at hresult
      exact ih hfirst hresult hbody.2

theorem safe_run {settings : Settings} {env : Env} {n : Node}
    (hbuiltins : settings.builtins = .standard) (henv : env.WellFormed) (hn : n.Regular) :
    (n.run settings env).env.WellFormed ∧ Safe (n.run settings env).result := by
  cases hn with
  | program hbody => exact safe_execAll hbuiltins henv trivial hbody

end Node

/-! ## Sessions -/

namespace Session

/-- The step was answered with a well-formed value or ended in a proper fault. -/
def Report.Safe (r : Report) : Prop :=
  (∃ v, r.answer = .ok (.value v) ∧ v.WellFormed) ∨
    ∃ f, r.answer = .error (.run (.fault f)) ∧ f.IsProper

end Session

end LineScript
