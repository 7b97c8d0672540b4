-- SUMMARY: Programs can be written as source text, and source text gives no other programs.
import LineScript.Proofs.JsonText
import LineScript.Proofs.Malformed

/-!
# Source text of programs

A tree that source text can express is written back as source text: one statement on a line, one
space around operators, and parentheses only around an operation that is a left operand or the
operand of a unary operator. The text is read as the tree it was written from, and every tree that
is read from a text can be expressed. The scanner and the grammar meet in one notion: a text yields
tokens with a property if it is cut into such tokens wherever it stands, in front of anything that
does not go on with its last token.
-/

namespace LineScript

/-! ## Trees that can be expressed -/

namespace Token

/-- The text is a name: letters, digits and underscores without a digit in front, and no keyword. -/
def isName : List Char → Bool
  | [] => false
  | c :: cs => isNameStart c && cs.all isNameChar && !(keywords.map Prod.fst).contains (c :: cs)

end Token

namespace Node

/-- Source text can express the tree as an expression. -/
inductive ExpressibleExpr : Node → Prop where
  | int {n : Int} (hnonneg : 0 ≤ n) (hle : n ≤ Word32.greatest) :
      ExpressibleExpr (.literal (.int n))
  | bool (b : Bool) : ExpressibleExpr (.literal (.bool b))
  | name {name : String} (hname : Token.isName name.toList) : ExpressibleExpr (.ofName name)
  | unary (op : UnaryOp) {e : Node} (he : ExpressibleExpr e) : ExpressibleExpr (.ofUnary op e)
  | binary (op : BinaryOp) {a b : Node} (ha : ExpressibleExpr a) (hb : ExpressibleExpr b) :
      ExpressibleExpr (.ofBinary op a b)

/-- Source text can express the tree as a statement. -/
inductive ExpressibleStmt : Node → Prop where
  | blank : ExpressibleStmt .blank
  | binding {name : String} {e : Node} (hname : Token.isName name.toList)
      (he : ExpressibleExpr e) : ExpressibleStmt (.ofBinding name e)
  | print {args : List Node} (hne : args ≠ []) (hargs : ∀ e ∈ args, ExpressibleExpr e) :
      ExpressibleStmt (.ofPrint args)

/-- Source text can express the tree as a program. -/
inductive Expressible : Node → Prop where
  | program {body : List Node} (hbody : ∀ s ∈ body, ExpressibleStmt s) :
      Expressible (.program body)

/-! ## Writing -/

/-- The text of an operand, in parentheses if the operand is an operation on two operands. -/
def enclosed (operand : Node) (text : List Char) : List Char :=
  match operand with
  | .binary .. => '(' :: (text ++ [')'])
  | _ => text

/-- An expression as source text. -/
def exprText : Node → List Char
  | .literal (.int n) => Numeral.chars n
  | .literal (.bool b) => if b then "true".toList else "false".toList
  | .ident name => name.display.toList
  | .unary op operand => op.display.toList ++ ' ' :: enclosed operand (exprText operand)
  | .binary op left right =>
    enclosed left (exprText left) ++ ' ' :: (op.display.toList ++ ' ' :: exprText right)
  | _ => []
termination_by structural n => n

/-- A statement as source text, without the end of its line. -/
def stmtText : Node → List Char
  | .binding name expr =>
    "const".toList ++ ' ' :: (name.display.toList ++ ' ' :: ('=' :: ' ' :: expr.exprText))
  | .call name args => name.display.toList ++ ' ' :: [',', ' '].intercalate (args.map exprText)
  | _ => []

/-- A program as source text, each statement on a line of its own. -/
def programText : Node → List Char
  | .program body => body.flatMap fun s => s.stmtText ++ ['\n']
  | _ => []

end Node

/-! ## Texts that are read are expressed -/

namespace Token

theorem lexeme_ident_iff {cs : List Char} : Lexeme cs .ident ↔ isName cs := by
  constructor
  · intro h
    cases h with
    | keyword h => simp [keywords] at h
    | operator h => simp [operators] at h
    | name h hnot =>
      obtain ⟨c, ds, rfl, hc, hds⟩ := h
      have hkeyword : c :: ds ∉ keywords.map Prod.fst := by
        intro hmem
        obtain ⟨⟨w, k⟩, hw, rfl⟩ := List.mem_map.mp hmem
        exact hnot k hw
      have hchars : ds.all isNameChar = true := List.all_eq_true.mpr hds
      simpa [isName, hc, hchars] using hkeyword
  · intro h
    cases cs with
    | nil => cases h
    | cons c ds =>
      simp only [isName, Bool.and_eq_true, List.all_eq_true, Bool.not_eq_true'] at h
      obtain ⟨⟨hc, hds⟩, hkeyword⟩ := h
      refine .name ⟨c, ds, rfl, hc, hds⟩ fun k hk => ?_
      have hmem := List.contains_iff_mem.mpr (List.mem_map_of_mem (f := Prod.fst) hk)
      rw [hkeyword] at hmem
      cases hmem

theorem Lexeme.isDigit_of_int {cs : List Char} (h : Lexeme cs .int) :
    cs ≠ [] ∧ ∀ c ∈ cs, c.isDigit := by
  cases h with
  | keyword h => simp [keywords] at h
  | operator h => simp [operators] at h
  | number h => exact h

/-- The token was read from a text, unless it is an end of input. -/
def IsRead (t : Token) : Prop :=
  t.kind = .eof ∨ ∃ cs, Lexeme cs t.kind ∧ t.text = String.ofList cs

theorem isRead_of_mem_scan {source : List Char} {t : Token} (ht : t ∈ scan source) : t.IsRead := by
  rcases lexeme_of_mem_scan ht with ⟨heof, -⟩ | hlexeme
  · exact .inl heof
  · exact .inr hlexeme

theorem IsRead.isName {t : Token} (h : t.IsRead) (hkind : t.kind = .ident) :
    isName t.text.toList := by
  rcases h with heof | ⟨cs, hcs, htext⟩
  · rw [hkind] at heof
    cases heof
  · rw [htext, String.toList_ofList]
    rw [hkind] at hcs
    exact lexeme_ident_iff.mp hcs

theorem IsRead.nonneg {t : Token} {n : Int} (h : t.IsRead) (hkind : t.kind = .int)
    (hn : Numeral.read? t.text = some n) : 0 ≤ n := by
  rcases h with heof | ⟨cs, hcs, htext⟩
  · rw [hkind] at heof
    cases heof
  · rw [hkind] at hcs
    obtain ⟨hne, hdigits⟩ := hcs.isDigit_of_int
    rw [htext, Numeral.read?_of_isDigit hne hdigits] at hn
    split at hn
    · obtain rfl := Option.some.inj hn
      exact Int.natCast_nonneg _
    · cases hn

end Token

namespace Grammar

open Node (ExpressibleExpr ExpressibleStmt)

mutual

theorem Primary.expressible {ts : List Token} {e : Node} :
    Primary ts e → (∀ t ∈ ts, t.IsRead) → ExpressibleExpr e
  | .name ht, hts => .name ((hts _ (List.mem_singleton.mpr rfl)).isName ht)
  | .number ht hn hfits, hts =>
    .int ((hts _ (List.mem_singleton.mpr rfl)).nonneg ht hn) hfits.2
  | .true _, _ => .bool true
  | .false _, _ => .bool false
  | .group _ he _, hts => he.expressible fun t ht => hts t (by simp [ht])
  | .unary _ he, hts => .unary _ (he.expressible fun t ht => hts t (by simp [ht]))
termination_by structural h => h

theorem Expr.expressible {ts : List Token} {e : Node} :
    Expr ts e → (∀ t ∈ ts, t.IsRead) → ExpressibleExpr e
  | .primary he, hts => he.expressible hts
  | .binary ha _ hb, hts => .binary _ (ha.expressible fun t ht => hts t (by simp [ht]))
      (hb.expressible fun t ht => hts t (by simp [ht]))
termination_by structural h => h

end

theorem Args.expressible {ts : List Token} {es : List Node} (h : Args ts es)
    (hts : ∀ t ∈ ts, t.IsRead) : es ≠ [] ∧ ∀ e ∈ es, ExpressibleExpr e := by
  induction h with
  | one he => exact ⟨List.cons_ne_nil _ _, List.forall_mem_singleton.mpr (he.expressible hts)⟩
  | more he _ _ ih =>
    rw [List.forall_mem_append, List.forall_mem_cons] at hts
    exact ⟨List.cons_ne_nil _ _,
      List.forall_mem_cons.mpr ⟨he.expressible hts.1, (ih hts.2.2).2⟩⟩

theorem Stmt.expressible {ts : List Token} {n : Node} (h : Stmt ts n)
    (hts : ∀ t ∈ ts, t.IsRead) : ExpressibleStmt n := by
  cases h with
  | const _ hn _ he =>
    simp only [List.forall_mem_cons] at hts
    exact .binding (hts.2.1.isName hn) (he.expressible hts.2.2.2)
  | binding hn _ he =>
    simp only [List.forall_mem_cons] at hts
    exact .binding (hts.1.isName hn) (he.expressible hts.2.2)
  | print _ hes =>
    obtain ⟨hne, hargs⟩ := hes.expressible (List.forall_mem_cons.mp hts).2
    exact .print hne hargs
  | blank => exact .blank

end Grammar

namespace Program

theorem expressible_of_ofSource {source : List Char} {tree : Node}
    (h : ofSource source = .ok tree) : tree.Expressible := by
  obtain ⟨body, rfl⟩ : ∃ body, tree = .program body := by
    unfold ofSource at h
    split at h
    · cases h
    · obtain ⟨body, -, rfl⟩ := ofTokens_eq_ok_iff.mp h
      exact ⟨body, rfl⟩
  obtain ⟨-, hbody⟩ := ofSource_eq_ok_iff.mp h
  have hlines := statements_eq_ok_iff.mp hbody
  refine .program fun n hn => ?_
  obtain ⟨i, hi, rfl⟩ := List.mem_iff_getElem.mp hn
  have hline : i < (Line.cut (Token.scan source)).length := hlines.length_eq ▸ hi
  have hstmt := Statement.parse_eq_ok_iff.mp (hlines.get hline hi)
  refine hstmt.expressible fun t ht => ?_
  rcases Line.mem_of_mem_cutFrom (List.getElem_mem hline) ht with hseen | hscan
  · cases hseen
  · exact Token.isRead_of_mem_scan hscan

end Program

/-! ## Texts that yield tokens -/

namespace Token

/-- Wherever the text stands in front of a boundary, it is cut into tokens with the property, and no
    run of digits among them is overlong. -/
def Yields (P : List Token → Prop) (cs : List Char) : Prop :=
  ∀ p rest, Boundary rest → ∃ ts, P ts ∧ (∀ t ∈ ts, ¬ t.isOversized) ∧
    scanFrom .nothing p (cs ++ rest) = ts ++ scanFrom .nothing (p.afterAll cs) rest

variable {P Q R : List Token → Prop} {cs ds : List Char}

theorem Yields.mono (h : Yields P cs) (hpq : ∀ ts, P ts → Q ts) : Yields Q cs := by
  intro p rest hrest
  obtain ⟨ts, hts, hshort, hscan⟩ := h p rest hrest
  exact ⟨ts, hpq ts hts, hshort, hscan⟩

theorem yields_nil (h : P []) : Yields P [] :=
  fun _ _ _ => ⟨[], h, List.forall_mem_nil _, rfl⟩

theorem not_isOversized_placed (p : Position) (k : Kind) (h : cs.length ≤ Numeral.maxDigits) :
    ¬ (Token.placed p k cs).isOversized := by
  simp [isOversized, placed, Nat.not_lt.mpr h]

/-- A lexeme is a token of its own. Only where it may be a run of digits does its length matter. -/
theorem Lexeme.yields {k : Kind} (h : Lexeme cs k)
    (hlength : k = .int ∨ k = .illegal → cs.length ≤ Numeral.maxDigits) :
    Yields (fun ts => ∃ t : Token, ts = [t] ∧ t.kind = k ∧ t.text = String.ofList cs) cs := by
  intro p rest hrest
  refine ⟨_, ⟨Token.placed p k cs, rfl, rfl, rfl⟩, ?_, h.scanFrom hrest p⟩
  rw [List.forall_mem_singleton]
  intro hlong
  simp only [isOversized, placed, String.toList_ofList, Bool.and_eq_true, decide_eq_true_eq,
    List.all_eq_true] at hlong
  obtain ⟨hlt, hdigits⟩ := hlong
  have hkind := h.kind_of_isDigit (List.ne_nil_of_length_pos (Nat.zero_lt_of_lt hlt)) hdigits
  refine Nat.not_le.mpr hlt (hlength ?_)
  rw [hkind, Kind.ofDigits]
  split
  · exact .inl rfl
  · exact .inr rfl

theorem Yields.append (h : Yields P cs) (h' : Yields Q ds)
    (hds : ∀ rest, Boundary rest → Boundary (ds ++ rest))
    (hR : ∀ ts us, P ts → Q us → R (ts ++ us)) : Yields R (cs ++ ds) := by
  intro p rest hrest
  obtain ⟨ts, hts, hshort, hscan⟩ := h p (ds ++ rest) (hds rest hrest)
  obtain ⟨us, hus, hshort', hscan'⟩ := h' (p.afterAll cs) rest hrest
  refine ⟨ts ++ us, hR ts us hts hus, List.forall_mem_append.mpr ⟨hshort, hshort'⟩, ?_⟩
  rw [List.append_assoc, hscan, hscan', List.append_assoc, Position.afterAll_append]

theorem Yields.space (h : Yields P cs) : Yields P (' ' :: cs) :=
  fun p rest hrest => h (p.after ' ') rest hrest

theorem Yields.spaced (h : Yields P cs) (h' : Yields Q ds)
    (hR : ∀ ts us, P ts → Q us → R (ts ++ us)) : Yields R (cs ++ ' ' :: ds) :=
  h.append h'.space (fun _ _ => boundary_cons (by decide) (by decide) _) hR

theorem Lexeme.yields_spaced {k : Kind} (h : Lexeme cs k)
    (hlength : k = .int ∨ k = .illegal → cs.length ≤ Numeral.maxDigits) (h' : Yields Q ds)
    (hR : ∀ t us, t.kind = k → t.text = String.ofList cs → Q us → R (t :: us)) :
    Yields R (cs ++ ' ' :: ds) := by
  refine (h.yields hlength).spaced h' ?_
  rintro _ us ⟨t, rfl, hkind, htext⟩ hus
  exact hR t us hkind htext hus

/-- A character that is a token however the text goes on. -/
theorem Yields.cons {c : Char} {k : Kind} (hc : Kind.ofMark c = k) (hmark : Segment.IsMark c)
    (hpair : Kind.ofPair? c = none) (h : Yields Q ds)
    (hR : ∀ t us, t.kind = k → Q us → R (t :: us)) : Yields R (c :: ds) := by
  intro p rest hrest
  obtain ⟨us, hus, hshort, hscan⟩ := h (p.after c) rest hrest
  have hone : ¬ (Token.placed p k [c]).isOversized :=
    not_isOversized_placed p k (by simp [Numeral.maxDigits])
  refine ⟨Token.placed p k [c] :: us, hR _ _ rfl hus, List.forall_mem_cons.mpr ⟨hone, hshort⟩, ?_⟩
  simp [scanFrom, Pending.step_nothing, hmark.start_of_none hpair, hc, hscan]

end Token

/-! ## Texts that are written yield their trees -/

theorem Token.lexeme_of_mem_table {w : List Char × Kind} (h : w ∈ keywords ++ operators) :
    Lexeme w.1 w.2 := by
  rcases List.mem_append.mp h with h | h
  · exact .keyword h
  · exact .operator h

theorem BinaryOp.exists_lexeme (op : BinaryOp) :
    ∃ k, Token.Lexeme op.symbol.toList k ∧ ofKind? k = some op := by
  have htable : ∃ w ∈ Token.keywords ++ Token.operators,
      w.1 = op.symbol.toList ∧ ofKind? w.2 = some op := by
    cases op <;> decide
  obtain ⟨w, hmem, hsymbol, hkind⟩ := htable
  exact ⟨w.2, hsymbol ▸ Token.lexeme_of_mem_table hmem, hkind⟩

theorem UnaryOp.exists_lexeme (op : UnaryOp) :
    ∃ k, Token.Lexeme op.symbol.toList k ∧ ofKind? k = some op := by
  have htable : ∃ w ∈ Token.keywords ++ Token.operators,
      w.1 = op.symbol.toList ∧ ofKind? w.2 = some op := by
    cases op <;> decide
  obtain ⟨w, hmem, hsymbol, hkind⟩ := htable
  exact ⟨w.2, hsymbol ▸ Token.lexeme_of_mem_table hmem, hkind⟩

namespace Node

open Token (Yields)
open Grammar (Primary Expr Args Stmt Body stream)

theorem yields_int {n : Int} (hnonneg : 0 ≤ n) (hle : n ≤ Word32.greatest) :
    Yields (Primary · (.literal (.int n))) (Numeral.chars n) := by
  obtain ⟨m, rfl⟩ := Int.eq_ofNat_of_zero_le hnonneg
  have hfits : Word32.Fits m := ⟨Int.le_trans (by decide) hnonneg, hle⟩
  have hdigits : ∀ c ∈ Numeral.natChars m, c.isDigit := fun _ => Numeral.isDigit_of_mem_natChars
  have hlength : (Numeral.natChars m).length ≤ Numeral.maxDigits := by
    have hlt : m < 10 ^ 10 := by
      simp only [Word32.greatest] at hle
      omega
    have hten := (Nat.length_toDigits_le_iff (by decide) (by decide)).mpr hlt
    exact hten.trans (by decide)
  have hlexeme : Token.Lexeme (Numeral.natChars m) .int := by
    refine .number ⟨Numeral.natChars_ne_nil m, hdigits⟩ ?_
    rwa [Numeral.digitsValue_natChars]
  refine (hlexeme.yields fun _ => hlength).mono ?_
  rintro _ ⟨t, rfl, hkind, htext⟩
  refine .number hkind ?_ hfits
  rw [htext, Numeral.read?_of_isDigit (Numeral.natChars_ne_nil m) hdigits, if_pos hlength,
    Numeral.digitsValue_natChars]

theorem yields_bool (b : Bool) :
    Yields (Primary · (.literal (.bool b))) (exprText (.literal (.bool b))) := by
  cases b with
  | false =>
    have hlexeme : Token.Lexeme "false".toList .false := .keyword (by decide)
    refine (hlexeme.yields (by simp)).mono ?_
    rintro _ ⟨t, rfl, hkind, -⟩
    exact .false hkind
  | true =>
    have hlexeme : Token.Lexeme "true".toList .true := .keyword (by decide)
    refine (hlexeme.yields (by simp)).mono ?_
    rintro _ ⟨t, rfl, hkind, -⟩
    exact .true hkind

theorem yields_name {name : String} (hname : Token.isName name.toList) :
    Yields (fun ts => ∃ t : Token, ts = [t] ∧ t.kind = .ident ∧ t.text = name) name.toList := by
  refine ((Token.lexeme_ident_iff.mpr hname).yields (by simp)).mono ?_
  rintro _ ⟨t, rfl, hkind, htext⟩
  exact ⟨t, rfl, hkind, htext.trans String.ofList_toList⟩

theorem yields_unary (op : UnaryOp) {e : Node}
    (he : Yields (Primary · e) (enclosed e e.exprText)) :
    Yields (Primary · (.ofUnary op e)) (exprText (.ofUnary op e)) := by
  obtain ⟨k, hlexeme, hop⟩ := op.exists_lexeme
  apply hlexeme.yields_spaced _ he
  · intro t us hkind _ hus
    exact .unary (hkind ▸ hop) hus
  · rintro (rfl | rfl) <;> cases hop

theorem yields_binary (op : BinaryOp) {a b : Node}
    (ha : Yields (Primary · a) (enclosed a a.exprText)) (hb : Yields (Expr · b) b.exprText) :
    Yields (Expr · (.ofBinary op a b)) (exprText (.ofBinary op a b)) := by
  obtain ⟨k, hlexeme, hop⟩ := op.exists_lexeme
  have hright : Yields (fun ts => ∃ t us, ts = t :: us ∧ t.kind = k ∧ Expr us b)
      (op.symbol.toList ++ ' ' :: b.exprText) := by
    apply hlexeme.yields_spaced _ hb
    · intro t us hkind _ hus
      exact ⟨t, us, rfl, hkind, hus⟩
    · rintro (rfl | rfl) <;> cases hop
  refine ha.spaced hright ?_
  rintro ts _ hts ⟨t, us, rfl, hkind, hus⟩
  exact .binary hts (hkind ▸ hop) hus

theorem yields_group {e : Node} {cs : List Char} (he : Yields (Expr · e) cs) :
    Yields (Primary · e) ('(' :: (cs ++ [')'])) := by
  have hclose : Yields (fun ts => ∃ r : Token, ts = [r] ∧ r.kind = .rparen) [')'] := by
    have hlexeme : Token.Lexeme [')'] .rparen := .operator (by decide)
    refine (hlexeme.yields (by simp)).mono ?_
    rintro _ ⟨r, rfl, hr, -⟩
    exact ⟨r, rfl, hr⟩
  have hinner : Yields (fun ts => ∃ us r, ts = us ++ [r] ∧ Expr us e ∧ r.kind = .rparen)
      (cs ++ [')']) := by
    refine he.append hclose (fun _ _ => Token.boundary_cons (by decide) (by decide) _) ?_
    rintro ts _ hts ⟨r, rfl, hr⟩
    exact ⟨ts, r, rfl, hts, hr⟩
  refine Yields.cons rfl ⟨by decide, by decide, by decide⟩ rfl hinner ?_
  rintro l _ hl ⟨us, r, rfl, hus, hr⟩
  exact .group hl hus hr

theorem ExpressibleExpr.yields {e : Node} (h : ExpressibleExpr e) :
    Yields (Primary · e) (enclosed e e.exprText) ∧ Yields (Expr · e) e.exprText := by
  -- Only the text of an operation on two operands is no primary as it stands.
  have hboth : ∀ e : Node, enclosed e e.exprText = e.exprText → Yields (Primary · e) e.exprText →
      Yields (Primary · e) (enclosed e e.exprText) ∧ Yields (Expr · e) e.exprText := by
    intro e hself hprimary
    rw [hself]
    exact ⟨hprimary, hprimary.mono fun _ => .primary⟩
  induction h with
  | int hnonneg hle => exact hboth _ rfl (yields_int hnonneg hle)
  | bool b => exact hboth _ rfl (yields_bool b)
  | name hname =>
    refine hboth _ rfl ((yields_name hname).mono ?_)
    rintro _ ⟨t, rfl, hkind, rfl⟩
    exact .name hkind
  | unary op _ ih => exact hboth _ rfl (yields_unary op ih.1)
  | binary op _ _ iha ihb =>
    have hexpr := yields_binary op iha.1 ihb.2
    exact ⟨yields_group hexpr, hexpr⟩

theorem yields_args {args : List Node} (hne : args ≠ []) (h : ∀ e ∈ args, ExpressibleExpr e) :
    Yields (Args · args) ([',', ' '].intercalate (args.map exprText)) := by
  induction args with
  | nil => exact absurd rfl hne
  | cons e es ih =>
    rw [List.forall_mem_cons] at h
    have hfirst := h.1.yields.2
    cases es with
    | nil =>
      rw [List.map_singleton, List.intercalate_singleton]
      exact hfirst.mono fun _ => .one
    | cons e' es =>
      have hrest := ih (List.cons_ne_nil e' es) h.2
      rw [List.map_cons, List.map_cons, List.intercalate_cons_cons, List.append_assoc]
      rw [List.map_cons] at hrest
      have hcomma : Yields (fun ts => ∃ c us, ts = c :: us ∧ c.kind = .comma ∧ Args us (e' :: es))
          (',' :: ' ' :: [',', ' '].intercalate (e'.exprText :: es.map exprText)) :=
        Yields.cons rfl ⟨by decide, by decide, by decide⟩ rfl hrest.space
          fun c us hc hus => ⟨c, us, rfl, hc, hus⟩
      refine hfirst.append hcomma (fun _ _ => Token.boundary_cons (by decide) (by decide) _) ?_
      rintro ts _ hts ⟨c, us, rfl, hc, hus⟩
      exact .more hts hc hus

theorem yields_binding {name : String} {e : Node} {cs : List Char}
    (hname : Token.isName name.toList) (he : Yields (Expr · e) cs) :
    Yields (Stmt · (.ofBinding name e))
      ("const".toList ++ ' ' :: (name.toList ++ ' ' :: ('=' :: ' ' :: cs))) := by
  have hconst : Token.Lexeme "const".toList .const := .keyword (by decide)
  have hassign : Token.Lexeme "=".toList .assign := .operator (by decide)
  have hvalue : Yields (fun ts => ∃ a us, ts = a :: us ∧ a.kind = .assign ∧ Expr us e)
      ("=".toList ++ ' ' :: cs) := by
    apply hassign.yields_spaced (by simp) he
    intro a us ha _ hus
    exact ⟨a, us, rfl, ha, hus⟩
  have hrest : Yields (fun ts => ∃ n us, ts = n :: us ∧ n.kind = .ident ∧ n.text = name ∧
      ∃ a vs, us = a :: vs ∧ a.kind = .assign ∧ Expr vs e)
      (name.toList ++ ' ' :: ("=".toList ++ ' ' :: cs)) := by
    refine (yields_name hname).spaced hvalue ?_
    rintro _ us ⟨n, rfl, hn, htext⟩ hus
    exact ⟨n, us, rfl, hn, htext, hus⟩
  apply hconst.yields_spaced (by simp) hrest
  rintro c _ hc - ⟨n, _, rfl, hn, rfl, a, us, rfl, ha, hus⟩
  exact .const hc hn ha hus

theorem ExpressibleStmt.yields {n : Node} (h : ExpressibleStmt n) :
    Yields (Stmt · n) n.stmtText := by
  cases h with
  | blank => exact Token.yields_nil .blank
  | binding hname he => exact yields_binding hname he.yields.2
  | print hne hargs =>
    have hprint : Token.Lexeme "print".toList .print := .keyword (by decide)
    apply hprint.yields_spaced (by simp) (yields_args hne hargs)
    intro p us hp _ hus
    exact .print hp hus

/-- The text of statements is cut into tokens that are these statements, line by line. -/
theorem body_of_programText {body : List Node} (h : ∀ s ∈ body, ExpressibleStmt s) (p : Position) :
    Body (stream (Token.scanFrom .nothing p (programText (.program body)))) body ∧
      ∀ t ∈ Token.scanFrom .nothing p (programText (.program body)), ¬ t.isOversized := by
  induction body generalizing p with
  | nil =>
    refine ⟨.done rfl, List.forall_mem_singleton.mpr ?_⟩
    exact Token.not_isOversized_placed p .eof (by decide)
  | cons s body ih =>
    rw [List.forall_mem_cons] at h
    have htext : programText (.program (s :: body)) =
        s.stmtText ++ '\n' :: programText (.program body) := by
      simp [programText]
    have hend : Token.Boundary ('\n' :: programText (.program body)) :=
      Token.boundary_cons (by decide) (by decide) _
    obtain ⟨ts, hts, hshort, hscan⟩ := h.1.yields p _ hend
    have hnewline : ∀ q cs, Token.scanFrom .nothing q ('\n' :: cs) =
        Token.placed q .eol ['\n'] :: Token.scanFrom .nothing (q.after '\n') cs := fun _ _ => rfl
    obtain ⟨hbody, hshort'⟩ := ih h.2 ((p.afterAll s.stmtText).after '\n')
    rw [htext, hscan, hnewline]
    constructor
    · rw [stream, Stream'.append_append_stream, Stream'.cons_append_stream]
      refine .line ?_ hts rfl hbody
      by_cases hempty : ts = []
      · rw [hempty]
        exact Token.Kind.noConfusion
      · exact Line.head_ne_eof hempty hts.not_endsStatement
    · rw [List.forall_mem_append, List.forall_mem_cons]
      exact ⟨hshort, Token.not_isOversized_placed _ .eol (by decide), hshort'⟩

end Node

namespace Program

theorem ofSource_programText {tree : Node} (h : tree.Expressible) :
    ofSource tree.programText = .ok tree := by
  obtain ⟨hbody⟩ := h
  obtain ⟨hderives, hshort⟩ := Node.body_of_programText hbody .start
  have htokens := Token.tokenize?_eq_some_iff.mpr ⟨rfl, hshort⟩
  simp only [ofSource, htokens]
  exact ofTokens_eq_ok_iff.mpr ⟨_, hderives, rfl⟩

/-- The trees that source text gives are those that it can express, and the text that an expressible
    tree is written as gives that tree. -/
theorem reading_inverts_writing (tree : Node) :
    ((∃ source, ofSource source = .ok tree) ↔ tree.Expressible) ∧
    (tree.Expressible → ofSource tree.programText = .ok tree) := by
  refine ⟨⟨?_, ?_⟩, ofSource_programText⟩
  · rintro ⟨source, h⟩
    exact expressible_of_ofSource h
  · intro h
    exact ⟨tree.programText, ofSource_programText h⟩

/-- A difference of a difference, a blank line, and the negation of a sum in front of a literal. -/
def grouped : Node :=
  .program
    [.ofBinding "x" (.ofBinary .sub
       (.ofBinary .sub (.literal (.int 10)) (.literal (.int 3))) (.literal (.int 2))),
     .blank,
     .ofPrint [.ofUnary .neg (.ofBinary .add (.ofName "x") (.literal (.int 1))),
       .ofUnary .not (.ofUnary .not (.literal (.bool true)))]]

theorem reading_inverts_writing_grouped :
    grouped.Expressible ∧
    grouped.programText = "const x = (10 - 3) - 2\n\nprint - (x + 1), not not true\n".toList ∧
    ofSource "const x = (10 - 3) - 2\n\nprint - (x + 1), not not true\n".toList = .ok grouped := by
  have hint : ∀ n ∈ [10, 3, 2, 1], Node.ExpressibleExpr (.literal (.int n)) := by
    intro n hn
    refine .int ?_ ?_ <;> revert n <;> decide
  have hname : Token.isName "x".toList := by decide
  have hexpressible : grouped.Expressible := by
    refine .program ?_
    simp only [List.forall_mem_cons]
    refine ⟨.binding hname ?_, .blank, .print (by simp) ?_, List.forall_mem_nil _⟩
    · exact .binary .sub (.binary .sub (hint 10 (by decide)) (hint 3 (by decide)))
        (hint 2 (by decide))
    · simp only [List.forall_mem_cons]
      exact ⟨.unary .neg (.binary .add (.name hname) (hint 1 (by decide))),
        .unary .not (.unary .not (.bool true)), List.forall_mem_nil _⟩
  have htext : grouped.programText =
      "const x = (10 - 3) - 2\n\nprint - (x + 1), not not true\n".toList := by decide +kernel
  exact ⟨hexpressible, htext, htext ▸ (reading_inverts_writing grouped).2 hexpressible⟩

end Program

end LineScript
