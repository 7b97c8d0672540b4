-- SUMMARY: Every stored tree has one normal form, which stores the same tree and runs the same.
import LineScript.Proofs.Storage
import LineScript.Session

/-!
# Normal forms of stored trees

Reading a stored tree is lenient, so many JSON values store one tree: fields that are not looked at,
statements given as a text or as the keys of an object, numbers given as texts. Writing gives one of
these values for each tree. To read and to write again is therefore to normalize: the result stores
the same tree, is left alone by normalizing again, and is the same for two values exactly if they
store the same tree. What an interpreter does with a stored tree depends on the tree alone.
-/

namespace LineScript

namespace Node

/-! ## Normalizing -/

/-- The value as it is stored after it has been read. -/
def normalize (o : Json) : Except StoredError Json := (ofJson o).map toJson

theorem normalize_of_ofJson {o : Json} {n : Node} (h : ofJson o = .ok n) :
    normalize o = .ok n.toJson := by
  rw [normalize, h]
  rfl

theorem normalize_toJson (n : Node) : normalize n.toJson = .ok n.toJson :=
  normalize_of_ofJson (ofJson_toJson n)

theorem toJson_injective {n m : Node} (h : n.toJson = m.toJson) : n = m := by
  have hread : ofJson n.toJson = ofJson m.toJson := congrArg ofJson h
  rw [ofJson_toJson, ofJson_toJson] at hread
  exact Except.ok.inj hread

/-- The normal forms are the values that writing gives. -/
theorem normalize_eq_self_iff {o : Json} : normalize o = .ok o ↔ ∃ n : Node, o = n.toJson := by
  constructor
  · intro h
    cases hread : ofJson o with
    | error e =>
      rw [normalize, hread] at h
      cases h
    | ok n =>
      rw [normalize_of_ofJson hread] at h
      exact ⟨n, (Except.ok.inj h).symm⟩
  · rintro ⟨n, rfl⟩
    exact normalize_toJson n

end Node

/-! ## Running -/

namespace Session

/-- The two values are the same tree to an interpreter, whatever it is asked to do with it. -/
structure SameTree (o p : Json) : Prop where
  run : ∀ (s : Session) scope, s.perform (.runTree o scope) = s.perform (.runTree p scope)
  execute : ∀ (s : Session) scope, s.perform (.execute o scope) = s.perform (.execute p scope)
  evaluate : ∀ (s : Session) scope, s.perform (.evaluate o scope) = s.perform (.evaluate p scope)

theorem sameTree_of_ofJson {o p : Json} (h : Node.ofJson o = Node.ofJson p) : SameTree o p := by
  have hwith : ∀ (s : Session) k, s.withTree o k = s.withTree p k := by
    intro s k
    rw [withTree, withTree, h]
  constructor <;> intro s scope <;> simp only [perform, hwith]

end Session

namespace Node

/-- Every tree is read back from its stored form. Every value that can be read has a normal form,
    which is read as the same tree, is the normal form of itself and runs as the value does. The
    values that are their own normal form are the stored forms of trees, and two values have one
    normal form exactly if they store one tree. -/
theorem stored_form_is_normal :
    (∀ n : Node, ofJson n.toJson = .ok n) ∧
    (∀ o n, ofJson o = .ok n → ∃ o', normalize o = .ok o' ∧ ofJson o' = ofJson o ∧
      normalize o' = .ok o' ∧ Session.SameTree o' o) ∧
    (∀ o, normalize o = .ok o ↔ ∃ n : Node, o = n.toJson) ∧
    ∀ o p n m, ofJson o = .ok n → ofJson p = .ok m → (normalize o = normalize p ↔ n = m) := by
  refine ⟨ofJson_toJson, ?_, fun o => normalize_eq_self_iff, ?_⟩
  · intro o n h
    have hread : ofJson n.toJson = ofJson o := by rw [ofJson_toJson, h]
    exact ⟨n.toJson, normalize_of_ofJson h, hread, normalize_toJson n,
      Session.sameTree_of_ofJson hread⟩
  · intro o p n m ho hp
    rw [normalize_of_ofJson ho, normalize_of_ofJson hp]
    constructor
    · intro h
      exact toJson_injective (Except.ok.inj h)
    · rintro rfl
      rfl

/-- A program with a field that nothing looks at, a number given as a text, a truth value given as a
    list, and arguments given as the keys of an object. -/
def untidy : Json :=
  .object [("note", .int 1), ("type", .text "Program"),
    ("body", .list [
      .object [("type", .text "ConstBinding"), ("name", .text "x"),
        ("expr", .object [("value", .text " +1_0 "), ("literal_type", .text "Integer"),
          ("type", .text "Literal")])],
      .object [("type", .text "BuiltinCall"), ("args", .object [("x", .null), ("y", .list [])]),
        ("name", .text "print")],
      .object [("type", .text "Literal"), ("literal_type", .text "Boolean"),
        ("value", .list [.null])]])]

/-- The untidy program has a normal form, which is not the program itself; and so has the text of
    its first statement's name, which stores another tree. -/
theorem stored_form_is_normal_untidy :
    (∃ o', normalize untidy = .ok o' ∧ ofJson o' = ofJson untidy ∧ normalize o' = .ok o' ∧
      Session.SameTree o' untidy) ∧
    normalize untidy ≠ .ok untidy ∧ normalize untidy ≠ normalize (.text "x") := by
  obtain ⟨-, hnormal, -, hsame⟩ := stored_form_is_normal
  have hread : ofJson untidy = .ok (.program [.ofBinding "x" (.literal (.int 10)),
      .ofPrint [.ofText "x", .ofText "y"], .literal (.bool true)]) := by
    decide +kernel
  refine ⟨hnormal untidy _ hread, by decide +kernel, ?_⟩
  intro h
  have htree := (hsame untidy (.text "x") _ (.ofText "x") hread rfl).mp h
  cases htree

end Node

end LineScript
