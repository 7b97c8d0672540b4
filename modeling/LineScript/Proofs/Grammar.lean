-- SUMMARY: The grammar of programs over tokens, as relations between token lists and trees.
import LineScript.Node
import LineScript.Numeral
import LineScript.Word32
import Mathlib.Data.Stream.Init

/-!
# The grammar

What a token list means, without a parser. A primary, an expression, the arguments of a print and a
statement are relations between tokens and trees; the body of a program is a relation between an
endless stream of tokens and a list of trees, since behind its last token a list goes on with ends
of input for ever.
-/

namespace LineScript.Grammar

/-! ## Expressions -/

mutual

/-- The tokens are a primary. Parentheses leave no node, and a unary operator takes one primary. -/
inductive Primary : List Token → Node → Prop where
  | name {t : Token} (ht : t.kind = .ident) : Primary [t] (.ofName t.text)
  | number {t : Token} {n : Int} (ht : t.kind = .int) (hn : Numeral.read? t.text = some n)
      (hfits : Word32.Fits n) : Primary [t] (.literal (.int n))
  | true {t : Token} (ht : t.kind = .true) : Primary [t] (.literal (.bool true))
  | false {t : Token} (ht : t.kind = .false) : Primary [t] (.literal (.bool false))
  | group {l r : Token} {ts : List Token} {e : Node} (hl : l.kind = .lparen) (he : Expr ts e)
      (hr : r.kind = .rparen) : Primary (l :: (ts ++ [r])) e
  | unary {t : Token} {op : UnaryOp} {ts : List Token} {e : Node}
      (ht : UnaryOp.ofKind? t.kind = some op) (he : Primary ts e) :
      Primary (t :: ts) (.ofUnary op e)

/-- The tokens are an expression. There is one level of operators, and they group to the right. -/
inductive Expr : List Token → Node → Prop where
  | primary {ts : List Token} {e : Node} (he : Primary ts e) : Expr ts e
  | binary {t : Token} {op : BinaryOp} {ts us : List Token} {a b : Node} (ha : Primary ts a)
      (ht : BinaryOp.ofKind? t.kind = some op) (hb : Expr us b) :
      Expr (ts ++ t :: us) (.ofBinary op a b)

end

/-! ## Statements -/

/-- The tokens are one or more expressions with commas between them. -/
inductive Args : List Token → List Node → Prop where
  | one {ts : List Token} {e : Node} (he : Expr ts e) : Args ts [e]
  | more {c : Token} {ts us : List Token} {e : Node} {es : List Node} (he : Expr ts e)
      (hc : c.kind = .comma) (hes : Args us es) : Args (ts ++ c :: us) (e :: es)

/-- The tokens are a statement. -/
inductive Stmt : List Token → Node → Prop where
  | const {c n a : Token} {ts : List Token} {e : Node} (hc : c.kind = .const)
      (hn : n.kind = .ident) (ha : a.kind = .assign) (he : Expr ts e) :
      Stmt (c :: n :: a :: ts) (.ofBinding n.text e)
  | binding {n a : Token} {ts : List Token} {e : Node} (hn : n.kind = .ident)
      (ha : a.kind = .assign) (he : Expr ts e) : Stmt (n :: a :: ts) (.ofBinding n.text e)
  | print {p : Token} {ts : List Token} {es : List Node} (hp : p.kind = .print)
      (hes : Args ts es) : Stmt (p :: ts) (.ofPrint es)
  | blank : Stmt [] .blank

/-- An argument may also come last. -/
theorem Args.snoc {ts us : List Token} {c : Token} {es : List Node}
    {e : Node} (h : Args ts es) (hc : c.kind = .comma) (he : Expr us e) :
    Args (ts ++ c :: us) (es ++ [e]) := by
  induction h with
  | one hfirst => exact .more hfirst hc (.one he)
  | more hfirst hc' _ ih =>
    rw [List.append_assoc, List.cons_append]
    exact .more hfirst hc' ih

/-! ## Programs -/

/-- The stream starts with the body of a program: it is over where an end of input stands, and
    otherwise goes on with a statement, a token that ends it, and the rest of the body. -/
inductive Body : Stream' Token → List Node → Prop where
  | done {s : Stream' Token} (hs : s.head.kind = .eof) : Body s []
  | line {stop : Token} {ts : List Token} {s : Stream' Token} {n : Node} {body : List Node}
      (hfirst : (ts ++ₛ Stream'.cons stop s).head.kind ≠ .eof) (hn : Stmt ts n)
      (hstop : stop.kind.endsStatement) (hbody : Body s body) :
      Body (ts ++ₛ Stream'.cons stop s) (n :: body)

/-- The tokens followed by ends of input for ever. -/
def stream (tokens : List Token) : Stream' Token := tokens ++ₛ Stream'.const Token.nowhere

/-- The grammar gives the tokens the tree. -/
def Derives (tokens : List Token) (tree : Node) : Prop :=
  ∃ body, Body (stream tokens) body ∧ tree = .program body

/-! ## Tokens that end a statement stand between statements only -/

theorem not_endsStatement_of_unary {k : Token.Kind} {op : UnaryOp}
    (h : UnaryOp.ofKind? k = some op) : k.endsStatement = false := by
  cases k <;> simp [UnaryOp.ofKind?] at h <;> rfl

theorem not_endsStatement_of_binary {k : Token.Kind} {op : BinaryOp}
    (h : BinaryOp.ofKind? k = some op) : k.endsStatement = false := by
  cases k <;> simp [BinaryOp.ofKind?] at h <;> rfl

mutual

theorem Primary.not_endsStatement {ts : List Token} {e : Node} :
    Primary ts e → ∀ t ∈ ts, t.kind.endsStatement = .false
  | .name ht | .number ht _ _ | .true ht | .false ht => by simp [ht, Token.Kind.endsStatement]
  | .group hl he hr => by
    have ih := he.not_endsStatement
    rw [List.forall_mem_cons, List.forall_mem_append, List.forall_mem_singleton, hl, hr]
    exact ⟨rfl, ih, rfl⟩
  | .unary hop he => by
    have ih := he.not_endsStatement
    rw [List.forall_mem_cons]
    exact ⟨not_endsStatement_of_unary hop, ih⟩
termination_by structural h => h

theorem Expr.not_endsStatement {ts : List Token} {e : Node} :
    Expr ts e → ∀ t ∈ ts, t.kind.endsStatement = .false
  | .primary he => he.not_endsStatement
  | .binary ha hop hb => by
    have iha := ha.not_endsStatement
    have ihb := hb.not_endsStatement
    rw [List.forall_mem_append, List.forall_mem_cons]
    exact ⟨iha, not_endsStatement_of_binary hop, ihb⟩
termination_by structural h => h

end

theorem Args.not_endsStatement {ts : List Token} {es : List Node} (h : Args ts es) :
    ∀ t ∈ ts, t.kind.endsStatement = false := by
  induction h with
  | one he => exact he.not_endsStatement
  | more he hc _ ih =>
    rw [List.forall_mem_append, List.forall_mem_cons, hc]
    exact ⟨he.not_endsStatement, rfl, ih⟩

theorem Stmt.not_endsStatement {ts : List Token} {n : Node} (h : Stmt ts n) :
    ∀ t ∈ ts, t.kind.endsStatement = false := by
  cases h with
  | const hc hn ha he =>
    simp only [List.forall_mem_cons, hc, hn, ha]
    exact ⟨rfl, rfl, rfl, he.not_endsStatement⟩
  | binding hn ha he =>
    simp only [List.forall_mem_cons, hn, ha]
    exact ⟨rfl, rfl, he.not_endsStatement⟩
  | print hp hes =>
    rw [List.forall_mem_cons, hp]
    exact ⟨rfl, hes.not_endsStatement⟩
  | blank => exact List.forall_mem_nil _

/-! ## One statement at a time -/

/-- The first token that ends a statement is where a stream splits. -/
theorem split_unique {ts us : List Token} {a b : Token} {s r : Stream' Token}
    (hts : ∀ t ∈ ts, t.kind.endsStatement = false) (ha : a.kind.endsStatement)
    (hus : ∀ t ∈ us, t.kind.endsStatement = false) (hb : b.kind.endsStatement)
    (h : ts ++ₛ Stream'.cons a s = us ++ₛ Stream'.cons b r) : ts = us ∧ a = b ∧ s = r := by
  induction ts generalizing us with
  | nil =>
    cases us with
    | nil => exact ⟨rfl, Stream'.cons_injective2 h⟩
    | cons u us =>
      obtain ⟨rfl, -⟩ := Stream'.cons_injective2 h
      simp [hus a (by simp)] at ha
  | cons t ts ih =>
    cases us with
    | nil =>
      obtain ⟨rfl, -⟩ := Stream'.cons_injective2 h
      simp [hts t (by simp)] at hb
    | cons u us =>
      obtain ⟨rfl, htail⟩ := Stream'.cons_injective2 h
      obtain ⟨rfl, hstop, hrest⟩ :=
        ih (List.forall_mem_cons.mp hts).2 (List.forall_mem_cons.mp hus).2 htail
      exact ⟨rfl, hstop, hrest⟩

theorem body_of_eof {s : Stream' Token} {body : List Node} (hs : s.head.kind = .eof) :
    Body s body ↔ body = [] := by
  constructor
  · intro h
    cases h with
    | done _ => rfl
    | line hfirst => exact absurd hs hfirst
  · rintro rfl
    exact .done hs

theorem body_of_line {ts : List Token} {stop : Token} {s : Stream' Token} {body : List Node}
    (hts : ∀ t ∈ ts, t.kind.endsStatement = false) (hstop : stop.kind.endsStatement)
    (hfirst : (ts ++ₛ Stream'.cons stop s).head.kind ≠ .eof) :
    Body (ts ++ₛ Stream'.cons stop s) body ↔
      ∃ n rest, Stmt ts n ∧ Body s rest ∧ body = n :: rest := by
  constructor
  · generalize hq : ts ++ₛ Stream'.cons stop s = q
    intro h
    cases h with
    | done hs => exact absurd (hq ▸ hs) hfirst
    | line _ hn hstop' hrest =>
      obtain ⟨rfl, rfl, rfl⟩ := split_unique hts hstop hn.not_endsStatement hstop' hq
      exact ⟨_, _, hn, hrest, rfl⟩
  · rintro ⟨n, rest, hn, hrest, rfl⟩
    exact .line hfirst hn hstop hrest

end LineScript.Grammar
