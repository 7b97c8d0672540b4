-- SUMMARY: A run with integers that can be written makes no others, so no trace ends it.
import LineScript.Node.StoredText
import LineScript.Proofs.JsonNumbers
import LineScript.Proofs.StoredTrees
import LineScript.Proofs.Watching

/-!
# Legibility

Operators bring their results back into range or make them smaller, so along a run no integer gets
longer than those that the tree and the environment began with. If these can be written, then every
event of the run can, and the run is the same under a trace of any level. Source text gives such
trees only, and so does the text of a stored tree.
-/

namespace LineScript

/-! ## Operators -/

theorem Word32.legible_wrap (n : Int) : Numeral.Legible (wrap n) := (fits_wrap n).legible

theorem Numeral.Legible.tmod {a : Int} (ha : Legible a) (b : Int) : Legible (a.tmod b) := by
  refine ha.of_natAbs_le ?_
  rw [Int.natAbs_tmod]
  exact Nat.mod_le _ _

theorem UnaryOp.legible_apply {op : UnaryOp} {v w : Value} (hv : v.Legible)
    (h : op.apply v = .ok w) : w.Legible := by
  cases op with
  | neg =>
    cases v with
    | int n =>
      cases h
      exact Word32.legible_wrap _
    | _ => cases h
  | pos =>
    cases v with
    | int n =>
      cases h
      exact hv
    | _ => cases h
  | not =>
    cases v with
    | bool b =>
      cases h
      trivial
    | _ => cases h

theorem BinaryOp.legible_applyInt {op : BinaryOp} {dialect : Dialect} {a b : Int} {w : Value}
    (ha : Numeral.Legible a) (h : op.applyInt dialect a b = .ok w) : w.Legible := by
  cases op with
  | add | sub | mul =>
    cases h
    exact Word32.legible_wrap _
  | div =>
    simp only [applyInt] at h
    split at h
    · cases h
      exact Word32.legible_wrap _
    · cases h
  | mod =>
    simp only [applyInt, Word32.remainder?] at h
    split at h
    · next hr =>
      split at hr
      · cases hr
      · cases hr
        cases h
        exact ha.tmod b
    · cases h
  | eq | ne | gt | lt =>
    cases h
    trivial
  | le | ge =>
    cases dialect <;>
    · cases h
      trivial
  | and | or | xor => cases h

theorem BinaryOp.legible_applyBool {op : BinaryOp} {dialect : Dialect} {a b : Bool} {w : Value}
    (h : op.applyBool dialect a b = .ok w) : w.Legible := by
  cases op with
  | and | or =>
    cases h
    trivial
  | xor =>
    cases dialect <;>
    · cases h
      trivial
  | _ => cases h

theorem ok_of_mapError {ε δ α : Type} {f : ε → δ} {r : Except ε α} {a : α}
    (h : r.mapError f = .ok a) : r = .ok a := by
  cases r with
  | error e => cases h
  | ok b =>
    cases h
    rfl

theorem legible_applyUnary {op : Json} {v w : Value} (hv : v.Legible)
    (h : applyUnary op v = .ok w) : w.Legible := by
  unfold applyUnary at h
  split at h
  · exact UnaryOp.legible_apply hv (ok_of_mapError h)
  · cases h

theorem legible_applyBinary {dialect : Dialect} {op : Json} {a b w : Value} (ha : a.Legible)
    (h : applyBinary dialect op a b = .ok w) : w.Legible := by
  unfold applyBinary at h
  split at h
  · split at h
    · exact BinaryOp.legible_applyInt ha (ok_of_mapError h)
    · cases h
  · split at h
    · exact BinaryOp.legible_applyBool (ok_of_mapError h)
    · cases h
  · cases h

/-! ## Trees and environments -/

/-- If the value is a name at all, it can be written. -/
def Json.LegibleName (j : Json) : Prop := ∀ name ∈ j.name?, name.Legible

/-- All values of the environment can be written. -/
def Env.Legible (env : Env) : Prop := ∀ e ∈ env.entries, e.2.Legible

theorem Env.legible_empty : Env.Legible .empty := fun _ he => absurd he List.not_mem_nil

theorem Env.Legible.read? {env : Env} (h : env.Legible) (name : Scalar) :
    ∀ v ∈ env.read? name, v.Legible := by
  intro v hv
  unfold Env.read? at hv
  split at hv
  · cases hv
  · exact Table.of_get? h hv

namespace Node

mutual

/-- The literals of the tree and the names in it can be written. -/
def Legible : Node → Prop
  | .program body => LegibleAll body
  | .binding name expr => name.LegibleName ∧ expr.Legible
  | .call _ args => LegibleAll args
  | .binary _ left right => left.Legible ∧ right.Legible
  | .unary _ operand => operand.Legible
  | .literal v => v.toValue.Legible
  | .ident name => name.LegibleName
  | .blank | .atom _ => True
termination_by structural n => n

/-- The same for each of several trees. -/
def LegibleAll : List Node → Prop
  | [] => True
  | n :: ns => n.Legible ∧ LegibleAll ns
termination_by structural ns => ns

end

theorem legibleAll_iff {ns : List Node} : LegibleAll ns ↔ ∀ n ∈ ns, n.Legible := by
  induction ns with
  | nil => simp [LegibleAll]
  | cons n ns ih => rw [LegibleAll, List.forall_mem_cons, ih]

end Node

/-! ## Runs -/

/-- The events and the value of the outcome can be written. -/
structure Outcome.Legible (o : Outcome Value) : Prop where
  events : ∀ e ∈ o.events, e.Legible
  value : ∀ v, o.result = .ok v → v.Legible

/-- The events, the bindings and the value of the effect can be written. -/
structure Effect.Legible (e : Effect) : Prop where
  events : ∀ event ∈ e.events, event.Legible
  env : e.env.Legible
  value : ∀ v, e.result = .ok v → v.Legible

theorem Outcome.Legible.of {r : Except RunError Value} (h : ∀ v, r = .ok v → v.Legible) :
    (Outcome.of r).Legible :=
  ⟨fun _ he => absurd he List.not_mem_nil, h⟩

theorem Outcome.Legible.andThen {o : Outcome Value} {f : Value → Outcome Value} (ho : o.Legible)
    (hf : ∀ v, v.Legible → (f v).Legible) : (o.andThen f).Legible := by
  unfold Outcome.andThen
  split
  · exact ⟨ho.events, fun _ h => nomatch h⟩
  · next v hv =>
    have hnext := hf v (ho.value v hv)
    exact ⟨List.forall_mem_append.mpr ⟨ho.events, hnext.events⟩, hnext.value⟩

theorem Env.Legible.look {env : Env} (henv : env.Legible) {name : Json} (hname : name.LegibleName) :
    (env.look name).Legible := by
  unfold Env.look
  split
  · exact .of fun _ h => nomatch h
  · next s hs =>
    refine ⟨List.forall_mem_singleton.mpr ⟨hname s hs, henv.read? s⟩, ?_⟩
    rintro v ⟨⟩
    cases hread : env.read? s with
    | none => trivial
    | some w => exact henv.read? s w hread

theorem Value.print_of_legible {v : Value} (h : v.Legible) :
    v.print = ⟨[.printed (v.render ++ "\n")], .ok v⟩ := by
  rw [print, render?, if_pos h]

theorem Value.print_of_not_legible {v : Value} (h : ¬ v.Legible) :
    v.print = .of (.error .overlong) := by
  rw [print, render?, if_neg h]

theorem Value.Legible.print {v : Value} (h : v.Legible) : v.print.Legible := by
  rw [Value.print_of_legible h]
  refine ⟨List.forall_mem_singleton.mpr trivial, ?_⟩
  rintro w ⟨⟩
  exact h

namespace Node

variable {env : Env}

theorem Legible.eval (dialect : Dialect) (henv : env.Legible) {n : Node} (hn : n.Legible) :
    (n.eval dialect env).Legible := by
  fun_induction Node.eval dialect env n with
  | case1 v => exact .of fun w hw => Except.ok.inj hw ▸ hn
  | case2 name => exact henv.look hn
  | case3 op operand ih =>
    exact (ih hn).andThen fun v hv => .of fun w hw => legible_applyUnary hv hw
  | case4 op left right ihl ihr =>
    refine (ihl hn.1).andThen fun a ha => ?_
    exact (ihr hn.2).andThen fun b _ => .of fun w hw => legible_applyBinary ha hw
  | _ => exact .of fun _ h => nomatch h

theorem Legible.printAll (dialect : Dialect) (henv : env.Legible) {args : List Node}
    (hargs : ∀ n ∈ args, n.Legible) : (printAll dialect env args).Legible := by
  induction args with
  | nil => exact .of fun v hv => Except.ok.inj hv ▸ trivial
  | cons arg args ih =>
    rw [List.forall_mem_cons] at hargs
    refine (hargs.1.eval dialect henv).andThen fun v hv => ?_
    exact hv.print.andThen fun _ _ => ih hargs.2

theorem Legible.exec (settings : Settings) (henv : env.Legible) {n : Node} (hn : n.Legible) :
    (n.exec settings env).Legible := by
  cases n with
  | binding name expr =>
    have hvalue := hn.2.eval settings.dialect henv
    simp only [Node.exec]
    split
    · exact ⟨hvalue.events, henv, fun _ h => nomatch h⟩
    · exact ⟨hvalue.events, henv, fun _ h => nomatch h⟩
    · next v s hv hs =>
      have hlegible := hvalue.value v hv
      refine ⟨?_, Table.forall_mem_put henv s hlegible, fun w hw => Except.ok.inj hw ▸ hlegible⟩
      rw [List.forall_mem_append, List.forall_mem_singleton]
      exact ⟨hvalue.events, hn.1 s hs, hlegible⟩
  | call name args =>
    simp only [Node.exec]
    split
    · exact ⟨List.forall_mem_nil _, henv, fun _ h => nomatch h⟩
    · have hprinted := Legible.printAll settings.dialect henv (legibleAll_iff.mp hn)
      exact ⟨hprinted.events, henv, hprinted.value⟩
  | blank => exact ⟨List.forall_mem_nil _, henv, fun v hv => Except.ok.inj hv ▸ trivial⟩
  | _ => exact ⟨List.forall_mem_nil _, henv, fun _ h => nomatch h⟩

theorem Legible.execAll (settings : Settings) (henv : env.Legible) {last : Value}
    (hlast : last.Legible) {body : List Node} (hbody : ∀ s ∈ body, s.Legible) :
    (execAll settings env last body).Legible := by
  induction body generalizing env last with
  | nil => exact ⟨List.forall_mem_nil _, henv, fun v hv => Except.ok.inj hv ▸ hlast⟩
  | cons s ss ih =>
    rw [List.forall_mem_cons] at hbody
    have hfirst := hbody.1.exec settings henv
    simp only [Node.execAll]
    split
    · exact hfirst
    · next v hv =>
      have hvalue := hfirst.value v hv
      have hrest := ih hfirst.env hvalue hbody.2
      refine ⟨?_, hrest.env, hrest.value⟩
      rw [List.forall_mem_append, List.forall_mem_cons]
      exact ⟨hfirst.events, hvalue, hrest.events⟩

/-- A tree that can be written runs to what can be written, whether it fails or not. -/
theorem Legible.run (settings : Settings) (henv : env.Legible) {n : Node} (hn : n.Legible) :
    (n.run settings env).Legible := by
  cases n with
  | program body =>
    have hlast : Value.undefined.Legible := trivial
    exact Legible.execAll settings henv hlast (legibleAll_iff.mp hn)
  | _ => exact ⟨List.forall_mem_nil _, henv, fun _ h => nomatch h⟩

end Node

/-! ## Trees that are read -/

theorem Json.Moderate.legibleName {j : Json} (h : j.Moderate) : j.LegibleName := by
  rintro name hname
  cases h with
  | scalar hs =>
    cases hname
    cases name with
    | int n => exact hs
    | _ => trivial
  | list _ => cases hname
  | object _ => cases hname

namespace Node

theorem legible_of_integerOf {j : Json} {n : Int} (hj : j.Moderate) (h : integerOf j = .ok n) :
    Numeral.Legible n := by
  cases hj with
  | @scalar s hs =>
    cases s with
    | null => cases h
    | bool b =>
      cases h
      cases b <;> exact Word32.Fits.legible (by decide)
    | int m =>
      cases h
      exact hs
    | real x =>
      cases x with
      | finite s m e =>
        cases h
        exact hs
      | infinite s => cases h
      | nan => cases h
    | text t =>
      simp only [integerOf] at h
      cases hread : Numeral.read? t with
      | none =>
        rw [hread] at h
        cases h
      | some m =>
        rw [hread] at h
        cases h
        exact Numeral.legible_of_read? hread
  | list _ => cases h
  | object _ => cases h

theorem legible_of_literalOf {type value : Json} {literal : Literal} (hvalue : value.Moderate)
    (h : literalOf type value = .ok literal) : literal.toValue.Legible := by
  unfold literalOf at h
  split at h
  · cases h
    trivial
  split at h
  · cases hint : integerOf value with
    | error e =>
      rw [hint] at h
      cases h
    | ok n =>
      rw [hint] at h
      cases h
      exact legible_of_integerOf hvalue hint
  · cases h

/-- What the field holds and what is read from it can be written. -/
structure Part.Legible (p : Part) : Prop where
  raw : p.raw.Moderate
  node : ∀ n, p.node = .ok n → n.Legible
  items : ∀ ns, p.items = .ok ns → LegibleAll ns

theorem legible_of_part {parts : List (String × Part)} (h : ∀ p ∈ parts, p.2.Legible)
    {key : String} {p : Part} (hp : part parts key = .ok p) : p.Legible := by
  unfold part at hp
  split at hp
  · next hlookup =>
    cases hp
    obtain ⟨front, back, hsplit, -⟩ := List.lookup_eq_some_iff.mp hlookup
    exact h (key, p) (by simp [hsplit])
  · cases hp

theorem legible_of_ofParts {parts : List (String × Part)} (hparts : ∀ p ∈ parts, p.2.Legible)
    {n : Node} (h : ofParts parts = .ok n) : n.Legible := by
  unfold ofParts at h
  simp only at h
  have hpart : ∀ key p, part parts key = .ok p → p.Legible := fun _ _ => legible_of_part hparts
  split at h
  · obtain ⟨p, hp, h⟩ := exists_of_bind h
    obtain ⟨body, hbody, h⟩ := exists_of_bind h
    cases h
    exact (hpart _ _ hp).items _ hbody
  split at h
  · obtain ⟨name, hname, h⟩ := exists_of_bind h
    obtain ⟨p, hp, h⟩ := exists_of_bind h
    obtain ⟨expr, hexpr, h⟩ := exists_of_bind h
    cases h
    exact ⟨(hpart _ _ hname).raw.legibleName, (hpart _ _ hp).node _ hexpr⟩
  split at h
  · obtain ⟨name, hname, h⟩ := exists_of_bind h
    obtain ⟨p, hp, h⟩ := exists_of_bind h
    obtain ⟨args, hargs, h⟩ := exists_of_bind h
    cases h
    exact (hpart _ _ hp).items _ hargs
  split at h
  · cases h
    trivial
  split at h
  · obtain ⟨op, hop, h⟩ := exists_of_bind h
    obtain ⟨p, hp, h⟩ := exists_of_bind h
    obtain ⟨left, hleft, h⟩ := exists_of_bind h
    obtain ⟨q, hq, h⟩ := exists_of_bind h
    obtain ⟨right, hright, h⟩ := exists_of_bind h
    cases h
    exact ⟨(hpart _ _ hp).node _ hleft, (hpart _ _ hq).node _ hright⟩
  split at h
  · obtain ⟨op, hop, h⟩ := exists_of_bind h
    obtain ⟨p, hp, h⟩ := exists_of_bind h
    obtain ⟨operand, hoperand, h⟩ := exists_of_bind h
    cases h
    exact (hpart _ _ hp).node operand hoperand
  split at h
  · obtain ⟨declared, hdeclared, h⟩ := exists_of_bind h
    obtain ⟨value, hvalue, h⟩ := exists_of_bind h
    obtain ⟨literal, hliteral, h⟩ := exists_of_bind h
    cases h
    exact legible_of_literalOf (hpart _ _ hvalue).raw hliteral
  split at h
  · obtain ⟨name, hname, h⟩ := exists_of_bind h
    cases h
    exact (hpart _ _ hname).raw.legibleName
  · cases h

theorem legibleAll_texts {α : Type} (xs : List α) (f : α → String) :
    LegibleAll (xs.map fun x => ofText (f x)) := by
  rw [legibleAll_iff]
  intro n hn
  obtain ⟨x, -, rfl⟩ := List.mem_map.mp hn
  trivial

theorem legibleAll_of_ofJsonAll {js : List Json} (hjs : ∀ j ∈ js, ∀ n, ofJson j = .ok n → n.Legible)
    {ns : List Node} (h : ofJsonAll js = .ok ns) : LegibleAll ns := by
  induction js generalizing ns with
  | nil =>
    cases h
    trivial
  | cons j js ih =>
    rw [List.forall_mem_cons] at hjs
    rw [ofJsonAll] at h
    obtain ⟨n, hn, h⟩ := exists_of_bind h
    obtain ⟨ms, hms, h⟩ := exists_of_bind h
    cases h
    exact ⟨hjs.1 n hn, ih hjs.2 hms⟩

theorem mem_partsOf {fields : List (String × Json)} {p : String × Part} (h : p ∈ partsOf fields) :
    ∃ f ∈ fields, p = (f.1, ⟨f.2, ofJson f.2, itemsOf f.2⟩) := by
  induction fields with
  | nil => cases h
  | cons f fields ih =>
    rw [partsOf, List.mem_cons] at h
    rcases h with rfl | h
    · exact ⟨f, List.mem_cons_self, rfl⟩
    · obtain ⟨g, hg, rfl⟩ := ih h
      exact ⟨g, List.mem_cons_of_mem _ hg, rfl⟩

/-- What is read from a value with short integers has short integers, in whatever way it is read. -/
theorem legible_of_moderate {j : Json} (h : j.Moderate) :
    Part.Legible ⟨j, ofJson j, itemsOf j⟩ := by
  induction h with
  | @scalar s hs =>
    refine ⟨.scalar hs, ?_, ?_⟩
    · intro n hn
      cases s <;> cases hn <;> trivial
    · intro ns hns
      cases s with
      | text t =>
        cases hns
        exact legibleAll_texts _ _
      | _ => cases hns
  | @list items hitems ih =>
    refine ⟨.list hitems, fun _ hn => (nomatch hn), ?_⟩
    intro ns hns
    exact legibleAll_of_ofJsonAll (fun x hx => (ih x hx).node) hns
  | @object fields hfields ih =>
    refine ⟨.object hfields, ?_, ?_⟩
    · intro n hn
      refine legible_of_ofParts (fun p hp => ?_) hn
      obtain ⟨f, hf, rfl⟩ := mem_partsOf hp
      exact ih f hf
    · rintro ns ⟨⟩
      exact legibleAll_texts _ _

theorem legible_of_ofJson {j : Json} {n : Node} (hj : j.Moderate) (h : ofJson j = .ok n) :
    n.Legible :=
  (legible_of_moderate hj).node n h

theorem legible_of_ofStoredText {text : List Char} {n : Node} (h : ofStoredText text = .ok n) :
    n.Legible := by
  unfold ofStoredText at h
  split at h
  · cases h
  · next j hj => exact legible_of_ofJson (Json.moderate_of_read hj) (ok_of_mapError h)

end Node

theorem Json.Legible.moderate {j : Json} (h : j.Legible) : j.Moderate := by
  induction h with
  | null => exact .scalar trivial
  | bool b => exact .scalar trivial
  | int hn => exact .scalar hn
  | text s => exact .scalar trivial
  | list _ ih => exact .list ih
  | object _ _ ih => exact .object ih

/-- A tree of source text is read back from its stored form, which is legible. -/
theorem Program.legible_of_ofSource {source : List Char} {tree : Node}
    (h : Program.ofSource source = .ok tree) : tree.Legible :=
  Node.legible_of_ofJson (legible_toJson_of_ofSource h).moderate (Node.ofJson_toJson tree)

/-- A trace of any level lets a program of source text run, where all values can be written. -/
theorem Program.watched_run {source : List Char} {tree : Node}
    (h : Program.ofSource source = .ok tree) {env : Env} (henv : env.Legible) (settings : Settings)
    (level : Int) :
    (tree.run settings env).watched level env = tree.run settings env :=
  Effect.watched_of_legible ((legible_of_ofSource h).run settings henv).events level env

end LineScript
