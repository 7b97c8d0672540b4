-- SUMMARY: A tree is read back from its stored form, which for trees of source text is legible.
import LineScript.Node.Stored
import LineScript.Proofs.JsonText
import LineScript.Proofs.Numerals
import LineScript.Proofs.Parsing

/-!
# Stored trees

Every tree is read back from its stored form. The stored form of a tree that comes from source text
is legible: its names and operators are texts and its integers are in range.
-/

namespace LineScript

/-! ## Reading back -/

namespace Node

@[simp] theorem part_cons_self (k : String) (p : Part) (parts : List (String × Part)) :
    part ((k, p) :: parts) k = .ok p := by
  simp [part]

@[simp] theorem part_cons_of_ne {k key : String} (h : key ≠ k) (p : Part)
    (parts : List (String × Part)) : part ((k, p) :: parts) key = part parts key := by
  simp [part, List.lookup_cons, beq_eq_false_iff_ne.mpr h]

mutual

theorem ofJson_toJson (n : Node) : ofJson n.toJson = .ok n := by
  cases n with
  | program body =>
    have hbody := ofJsonAll_toJsonAll body
    simp [toJson, ofJson, ofParts, partsOf, itemsOf, hbody, bind, Except.bind, pure,
      Except.pure]
  | binding name expr =>
    have hexpr := ofJson_toJson expr
    simp [toJson, ofJson, ofParts, partsOf, hexpr, bind, Except.bind, pure, Except.pure]
  | call name args =>
    have hargs := ofJsonAll_toJsonAll args
    simp [toJson, ofJson, ofParts, partsOf, itemsOf, hargs, bind, Except.bind, pure,
      Except.pure]
  | blank => rfl
  | binary op left right =>
    have hleft := ofJson_toJson left
    have hright := ofJson_toJson right
    simp [toJson, ofJson, ofParts, partsOf, hleft, hright, bind, Except.bind, pure,
      Except.pure]
  | unary op operand =>
    have hoperand := ofJson_toJson operand
    simp [toJson, ofJson, ofParts, partsOf, hoperand, bind, Except.bind, pure, Except.pure]
  | literal v =>
    cases v <;>
      simp [toJson, ofJson, ofParts, partsOf, Literal.toJson, Literal.typeName, literalOf,
        integerOf, truthOf, Except.map, bind, Except.bind, pure, Except.pure]
  | ident name =>
    simp [toJson, ofJson, ofParts, partsOf, bind, Except.bind, pure, Except.pure]
  | atom a => cases a <;> rfl
termination_by structural n

theorem ofJsonAll_toJsonAll (ns : List Node) : ofJsonAll (toJsonAll ns) = .ok ns := by
  cases ns with
  | nil => rfl
  | cons n ns =>
    have hn := ofJson_toJson n
    have hns := ofJsonAll_toJsonAll ns
    simp [toJsonAll, ofJsonAll, hn, hns, bind, Except.bind, pure, Except.pure]
termination_by structural ns

end

theorem forall_mem_toJsonAll {P : Json → Prop} {ns : List Node} (h : ∀ n ∈ ns, P n.toJson) :
    ∀ j ∈ toJsonAll ns, P j := by
  induction ns with
  | nil => exact List.forall_mem_nil _
  | cons n ns ih =>
    rw [List.forall_mem_cons] at h
    exact List.forall_mem_cons.mpr ⟨h.1, ih h.2⟩

end Node

/-! ## Legible trees -/

namespace Grammar

open Json (Legible)

mutual

theorem Primary.legible {ts : List Token} {e : Node} : Primary ts e → e.toJson.Legible
  | .name _ => .object (by simp) (by simp [Legible.text])
  | .number _ _ hfits => .object (by simp)
      (by simp [Legible.text, Literal.toJson, Legible.int hfits.legible])
  | .true _ | .false _ => .object (by simp) (by simp [Legible.text, Literal.toJson, Legible.bool])
  | .group _ he _ => he.legible
  | .unary _ he => .object (by simp) (by simp [Legible.text, he.legible])
termination_by structural h => h

theorem Expr.legible {ts : List Token} {e : Node} : Expr ts e → e.toJson.Legible
  | .primary he => he.legible
  | .binary ha _ hb => .object (by simp) (by simp [Legible.text, ha.legible, hb.legible])
termination_by structural h => h

end

theorem Args.legible {ts : List Token} {es : List Node} (h : Args ts es) :
    ∀ e ∈ es, e.toJson.Legible := by
  induction h with
  | one he => exact List.forall_mem_singleton.mpr he.legible
  | more he _ _ ih => exact List.forall_mem_cons.mpr ⟨he.legible, ih⟩

theorem Stmt.legible {ts : List Token} {n : Node} (h : Stmt ts n) : n.toJson.Legible := by
  cases h with
  | const _ _ _ he => exact .object (by simp) (by simp [Legible.text, he.legible])
  | binding _ _ he => exact .object (by simp) (by simp [Legible.text, he.legible])
  | print _ hes =>
    have hargs := Legible.list (Node.forall_mem_toJsonAll hes.legible)
    exact .object (by simp) (by simp [Legible.text, hargs])
  | blank => exact .object (by simp) (by simp [Legible.text])

theorem Body.legible {s : Stream' Token} {body : List Node} (h : Body s body) :
    ∀ n ∈ body, n.toJson.Legible := by
  induction h with
  | done _ => exact List.forall_mem_nil _
  | line _ hn _ _ ih => exact List.forall_mem_cons.mpr ⟨hn.legible, ih⟩

end Grammar

theorem Program.legible_toJson_of_ofSource {source : List Char} {tree : Node}
    (h : Program.ofSource source = .ok tree) : tree.toJson.Legible := by
  unfold Program.ofSource at h
  split at h
  · cases h
  · obtain ⟨body, hbody, rfl⟩ := Program.ofTokens_eq_ok_iff.mp h
    have hlist := Json.Legible.list (Node.forall_mem_toJsonAll hbody.legible)
    exact .object (by simp) (by simp [Json.Legible.text, hlist])

end LineScript
