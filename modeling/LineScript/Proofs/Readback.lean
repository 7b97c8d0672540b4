-- SUMMARY: Printed values read back, but for the least word, and no two values print alike.
import LineScript.Proofs.Composition
import LineScript.Proofs.Rendering
import LineScript.Proofs.TypeFlow

/-!
# Printed values

What is printed for a truth value or an integer is also source text for it: a keyword, a run of
digits, or a sign in front of a run of digits. Words are not symmetric about zero, so the digits of
the least word are those of an integer that is no word, and of all words only the least cannot be
read back. Values that print alike are the same, and lines of output can be told apart, so prints
that write the same have printed the same values.
-/

namespace LineScript

namespace Value

/-- The value is a truth value, or a word other than the least. -/
def ReadsBack : Value → Prop
  | .int n => Word32.Fits n ∧ n ≠ Word32.least
  | .bool _ => True
  | _ => False

/-- Source text that binds a name to a value as it is printed. -/
def bindingText (name : String) (v : Value) : List Char :=
  ("const " ++ name ++ " = " ++ v.render).toList

theorem bindingText_eq (name : String) (v : Value) : bindingText name v =
    "const".toList ++ ' ' :: (name.toList ++ ' ' :: ('=' :: ' ' :: v.render.toList)) := by
  simp [bindingText]

end Value

/-! ## Reading back -/

namespace Node

open Token (Yields)
open Grammar (Primary Expr Stmt)

theorem yields_neg {e : Node} {cs : List Char} (he : Yields (Primary · e) cs) :
    Yields (Primary · (.ofUnary .neg e)) ('-' :: cs) := by
  refine Yields.cons rfl ⟨by decide, by decide, by decide⟩ rfl he ?_
  intro t us ht hus
  have hop : UnaryOp.ofKind? t.kind = some .neg := by
    rw [ht]
    rfl
  exact .unary hop hus

/-- The printed form of a value is an expression of that value. -/
theorem exists_expr_of_readsBack {v : Value} (h : v.ReadsBack) :
    ∃ e, Yields (Expr · e) v.render.toList ∧
      ∀ dialect env, e.eval dialect env = .of (.ok v) := by
  cases v with
  | int n =>
    obtain ⟨⟨hleast, hgreatest⟩, hne⟩ := h
    simp only [Value.render, Numeral.render, String.toList_ofList]
    cases n with
    | ofNat m =>
      have hdigits := yields_int (Int.natCast_nonneg m) hgreatest
      exact ⟨_, hdigits.mono fun _ => .primary, fun _ _ => rfl⟩
    | negSucc m =>
      -- The digits behind the sign are a word only because the least word is left out.
      have hle : ((m + 1 : Nat) : Int) ≤ Word32.greatest := by
        simp only [Word32.least, Word32.greatest] at hleast hne ⊢
        omega
      have hdigits := yields_int (Int.natCast_nonneg (m + 1)) hle
      refine ⟨_, (yields_neg hdigits).mono fun _ => .primary, fun dialect env => ?_⟩
      have hwrap : Word32.wrap (-((m + 1 : Nat) : Int)) = Int.negSucc m :=
        Word32.wrap_of_fits ⟨hleast, hgreatest⟩
      have happly : applyUnary (.text UnaryOp.neg.symbol) (.int (m + 1 : Nat)) =
          .ok (.int (Word32.wrap (-((m + 1 : Nat) : Int)))) := rfl
      rw [hwrap] at happly
      simp only [ofUnary, eval, Outcome.of, Outcome.andThen, Literal.toValue, happly,
        List.append_nil]
  | bool b =>
    refine ⟨.literal (.bool b), ?_, fun _ _ => rfl⟩
    have htext : (Value.bool b).render.toList = exprText (.literal (.bool b)) := by
      cases b <;> rfl
    rw [htext]
    exact (yields_bool b).mono fun _ => .primary
  | undefined => exact h.elim
  | text s => exact h.elim
  | null => exact h.elim

/-- A binding of an expression that has a value binds the name to it and gives it back. -/
theorem run_binding {e : Node} {v : Value} (name : String) (settings : Settings) (env : Env)
    (he : e.eval settings.dialect env = .of (.ok v)) :
    (program [ofBinding name e]).run settings env =
      ⟨[.bound (.text name) v, .finished "ConstBinding" v], env.put (.text name) v, .ok v⟩ := by
  simp only [run, execAll, exec, ofBinding, he]
  rfl

end Node

namespace Program

open Token (Yields)

/-- A text that is a statement is a program of one statement. -/
theorem ofSource_of_yields {n : Node} {cs : List Char} (h : Yields (Grammar.Stmt · n) cs)
    (hn : n ≠ .blank) : ofSource cs = .ok (.program [n]) := by
  obtain ⟨ts, hstmt, hshort, hscan⟩ := h .start [] nofun
  rw [List.append_nil] at hscan
  change Token.scan cs = ts ++ [Token.placed (Position.start.afterAll cs) .eof []] at hscan
  have hne : ts ≠ [] := by
    rintro rfl
    cases hstmt
    exact hn rfl
  have htokens : Token.tokenize? cs = some (Token.scan cs) := by
    refine Token.tokenize?_eq_some_iff.mpr ⟨rfl, ?_⟩
    rw [hscan, List.forall_mem_append, List.forall_mem_singleton]
    exact ⟨hshort, Token.not_isOversized_placed _ .eof (by decide)⟩
  simp only [ofSource, htokens]
  refine ofTokens_eq_ok_iff.mpr ⟨[n], ?_, rfl⟩
  rw [hscan, Grammar.stream, Stream'.append_append_stream, Stream'.cons_append_stream]
  exact .line (Line.head_ne_eof hne hstmt.not_endsStatement) hstmt rfl (.done rfl)

theorem exists_ofSource_bindingText {name : String} {v : Value}
    (hname : Token.isName name.toList) (hv : v.ReadsBack) :
    ∃ e, ofSource (v.bindingText name) = .ok (.program [.ofBinding name e]) ∧
      ∀ dialect env, Node.eval dialect env e = .of (.ok v) := by
  obtain ⟨e, he, heval⟩ := Node.exists_expr_of_readsBack hv
  refine ⟨e, ?_, heval⟩
  rw [Value.bindingText_eq]
  exact ofSource_of_yields (Node.yields_binding hname he) nofun

end Program

/-! ## The least word -/

theorem Position.afterAll_of_notMem {cs : List Char} (h : '\n' ∉ cs) (p : Position) :
    p.afterAll cs = ⟨p.line, p.column + cs.length⟩ := by
  induction cs generalizing p with
  | nil => rfl
  | cons c cs ih =>
    rw [List.mem_cons, not_or] at h
    have hafter : p.after c = ⟨p.line, p.column + 1⟩ := if_neg (Ne.symm h.1)
    rw [afterAll_cons, hafter, ih h.2, List.length_cons, Nat.add_right_comm, Nat.add_assoc]

namespace Token

theorem newline_notMem_of_isName {cs : List Char} (h : isName cs) : '\n' ∉ cs := by
  cases cs with
  | nil => exact List.not_mem_nil
  | cons c ds =>
    simp only [isName, Bool.and_eq_true, List.all_eq_true] at h
    obtain ⟨⟨hc, hds⟩, -⟩ := h
    rintro (_ | ⟨_, hmem⟩)
    · cases hc
    · cases hds _ hmem

theorem not_isOversized_of_isName {t : Token} (h : isName t.text.toList) : ¬ t.isOversized := by
  intro hlong
  simp only [isOversized, Bool.and_eq_true, List.all_eq_true] at hlong
  cases hcs : t.text.toList with
  | nil =>
    rw [hcs] at h
    cases h
  | cons c ds =>
    rw [hcs] at h hlong
    simp only [isName, Bool.and_eq_true] at h
    exact not_isDigit_of_isNameStart h.1.1 (hlong.2 c List.mem_cons_self)

/-- A lexeme with a space behind it is a token, and the text goes on behind the space. -/
theorem Lexeme.scanFrom_spaced {cs : List Char} {k : Kind} (h : Lexeme cs k) (hline : '\n' ∉ cs)
    (p : Position) (rest : List Char) :
    Token.scanFrom .nothing p (cs ++ ' ' :: rest) =
      Token.placed p k cs :: Token.scanFrom .nothing ⟨p.line, p.column + cs.length + 1⟩ rest := by
  rw [h.scanFrom (boundary_cons (by decide) (by decide) rest),
    Position.afterAll_of_notMem hline]
  rfl

/-- The tokens of a binding to the printed form of the least word. -/
theorem scan_bindingText_least {name : String} (hname : isName name.toList) :
    scan ((Value.int Word32.least).bindingText name) =
      [⟨.const, "const", 1, 1⟩, ⟨.ident, name, 1, 7⟩, ⟨.assign, "=", 1, name.length + 8⟩,
       ⟨.minus, "-", 1, name.length + 10⟩, ⟨.illegal, "2147483648", 1, name.length + 11⟩,
       ⟨.eof, "", 1, name.length + 21⟩] := by
  have hrender : (Value.int Word32.least).render.toList = '-' :: "2147483648".toList := by
    decide +kernel
  have hconst : Lexeme "const".toList .const := .keyword (by decide)
  have hassign : Lexeme "=".toList .assign := .operator (by decide)
  have hdigits : Lexeme "2147483648".toList .illegal :=
    .oversized ⟨List.cons_ne_nil _ _, List.all_eq_true.mp rfl⟩ (by decide +kernel)
  have hequals : ∀ p rest, scanFrom .nothing p ('=' :: ' ' :: rest) =
      Token.placed p .assign ['='] :: scanFrom .nothing ⟨p.line, p.column + 2⟩ rest :=
    hassign.scanFrom_spaced (by decide)
  have hvalue : ∀ p : Position, scanFrom .nothing p ('-' :: "2147483648".toList) =
      [Token.placed p .minus ['-'],
       Token.placed ⟨p.line, p.column + 1⟩ .illegal "2147483648".toList,
       Token.placed ⟨p.line, p.column + 11⟩ .eof []] := by
    intro p
    have hend : Boundary [] := nofun
    exact congrArg (Token.placed p .minus ['-'] :: ·) (hdigits.scanFrom hend _)
  rw [Value.bindingText_eq, hrender, scan, hconst.scanFrom_spaced (by decide),
    (lexeme_ident_iff.mpr hname).scanFrom_spaced (newline_notMem_of_isName hname), hequals, hvalue]
  have hlength : name.toList.length = name.length := String.length_toList
  simp [placed, Position.start, hlength]
  omega

end Token

theorem Program.ofSource_bindingText_least {name : String} (hname : Token.isName name.toList) :
    ofSource ((Value.int Word32.least).bindingText name) =
      .error (.unexpected ⟨.illegal, "2147483648", 1, name.length + 11⟩ none) := by
  have hscan := Token.scan_bindingText_least hname
  have hshort : ∀ t ∈ Token.scan ((Value.int Word32.least).bindingText name), ¬ t.isOversized := by
    rw [hscan]
    simp only [List.forall_mem_cons]
    refine ⟨by decide, Token.not_isOversized_of_isName hname, ?_⟩
    simp [Token.isOversized, Numeral.maxDigits]
  have htokens := Token.tokenize?_eq_some_iff.mpr ⟨rfl, hshort⟩
  simp only [ofSource, htokens, hscan]
  rfl

/-! ## Telling values apart -/

namespace Numeral

theorem natChars_injective : Function.Injective natChars :=
  Function.LeftInverse.injective digitsValue_natChars

theorem natChars_ne_minus (m : Nat) (cs : List Char) : natChars m ≠ '-' :: cs := by
  intro h
  have hdigit := isDigit_of_mem_natChars (h ▸ List.mem_cons_self)
  cases hdigit

theorem chars_injective : Function.Injective chars := by
  intro m n h
  cases m with
  | ofNat m =>
    cases n with
    | ofNat n => rw [natChars_injective h]
    | negSucc n => exact absurd h (natChars_ne_minus m _)
  | negSucc m =>
    cases n with
    | ofNat n => exact absurd h.symm (natChars_ne_minus n _)
    | negSucc n => rw [Nat.succ.inj (natChars_injective (List.cons.inj h).2)]

end Numeral

namespace Value

/-- The well-formed values that are no integers. -/
def words : List Value := [.bool true, .bool false, .undefined]

theorem WellFormed.int_or_mem_words {v : Value} (h : v.WellFormed) :
    (∃ n, v = .int n) ∨ v ∈ words := by
  cases v with
  | int n => exact .inl ⟨n, rfl⟩
  | bool b => cases b <;> exact .inr (by decide)
  | undefined => exact .inr (by decide)
  | text s => exact h.elim
  | null => exact h.elim

/-- Integers print with digits and words without, so values that print alike are of one sort. -/
theorem WellFormed.eq_of_render_eq {v w : Value} (hv : v.WellFormed) (hw : w.WellFormed)
    (h : v.render = w.render) : v = w := by
  have hword : ∀ n, ∀ u ∈ words, render (.int n) ≠ u.render := by
    have hletters : ∀ u ∈ words, u.render.toList.all (!·.isDigit) := by decide
    exact fun n u hu => Numeral.render_ne_of_not_isDigit n (hletters u hu)
  rcases hv.int_or_mem_words with ⟨m, rfl⟩ | hv <;>
    rcases hw.int_or_mem_words with ⟨n, rfl⟩ | hw
  · rw [Numeral.chars_injective (String.ofList_injective h)]
  · exact absurd h (hword m w hw)
  · exact absurd h.symm (hword n v hv)
  · have hdistinct : ∀ u ∈ words, ∀ u' ∈ words, u.render = u'.render → u = u' := by decide
    exact hdistinct v hv w hw h

end Value

namespace Node

theorem toList_linesOf_cons (v : Value) (values : List Value) :
    (linesOf (v :: values)).toList = v.render.toList ++ '\n' :: (linesOf values).toList := by
  simp [linesOf]

/-- Values print on one line each, so lines that are the same are lines of the same values. -/
theorem eq_of_linesOf_eq {values values' : List Value} (h : ∀ v ∈ values, v.WellFormed)
    (h' : ∀ v ∈ values', v.WellFormed) (heq : linesOf values = linesOf values') :
    values = values' := by
  induction values generalizing values' with
  | nil =>
    cases values' with
    | nil => rfl
    | cons w ws =>
      have htexts := congrArg String.toList heq
      simp [linesOf] at htexts
  | cons v vs ih =>
    have htexts := congrArg String.toList heq
    cases values' with
    | nil => simp [linesOf] at htexts
    | cons w ws =>
      rw [List.forall_mem_cons] at h h'
      rw [toList_linesOf_cons, toList_linesOf_cons] at htexts
      -- No value prints a newline, so the first lines of the two texts are the first values.
      have hlines := congrArg Text.splitLines htexts
      rw [Text.splitLines_newline h.1.newline_notMem_render,
        Text.splitLines_newline h'.1.newline_notMem_render] at hlines
      have hfirst := List.append_cancel_right (List.cons.inj hlines).1
      rw [hfirst] at htexts
      have hrest := (List.cons.inj (List.append_cancel_left htexts)).2
      rw [h.1.eq_of_render_eq h'.1 (String.toList_inj.mp hfirst),
        ih h.2 h'.2 (String.toList_inj.mp hrest)]

end Node

/-- A binding to the printed form of a value gives the value and binds the name to it, in either
    dialect and whatever was bound before. Of all words only the least has a printed form that is no
    expression, and the error stands at its digits. So values that print alike are the same, and
    prints that write the same have printed the same values. -/
theorem Value.printed_values_read_back (name : String) (hname : Token.isName name.toList) :
    (∀ v : Value, v.ReadsBack →
      (∀ dialect, runSource dialect (v.bindingText name) =
        .ok ⟨[.bound (.text name) v, .finished "ConstBinding" v],
          Table.empty.put (.text name) v, .ok v⟩) ∧
      ∃ tree, Program.ofSource (v.bindingText name) = .ok tree ∧
        ∀ settings env, (tree.run settings env).result = .ok v ∧
          (tree.run settings env).env = env.put (.text name) v ∧
          (tree.run settings env).env.get? (.text name) = some v) ∧
    (∀ n, Word32.Fits n →
      ((∃ e, Program.ofSource ((Value.int n).bindingText name) = .error e) ↔ n = Word32.least)) ∧
    (∀ dialect, runSource dialect ((Value.int Word32.least).bindingText name) =
      .error (.unexpected ⟨.illegal, "2147483648", 1, name.length + 11⟩ none)) ∧
    (∀ v w : Value, v.WellFormed → w.WellFormed → v.render = w.render → v = w) ∧
    ∀ dialect dialect' env env' args args' values values',
      List.Forall₂ (fun arg v => (Node.eval dialect env arg).result = .ok v) args values →
      List.Forall₂ (fun arg v => (Node.eval dialect' env' arg).result = .ok v) args' values' →
      (∀ v ∈ values, v.WellFormed) → (∀ v ∈ values', v.WellFormed) →
      Event.outputOf ((Node.ofPrint args).exec (.new dialect) env).events =
        Event.outputOf ((Node.ofPrint args').exec (.new dialect') env').events →
      values = values' := by
  have hleast := Program.ofSource_bindingText_least hname
  refine ⟨fun v hv => ?_, fun n hn => ⟨?_, ?_⟩, fun dialect => ?_,
    fun v w hv hw => hv.eq_of_render_eq hw, ?_⟩
  · obtain ⟨e, hsource, heval⟩ := Program.exists_ofSource_bindingText hname hv
    refine ⟨fun dialect => ?_, _, hsource, fun settings env => ?_⟩
    · rw [runSource, hsource]
      exact congrArg Except.ok (Node.run_binding name _ _ (heval dialect _))
    · rw [Node.run_binding name settings env (heval _ env)]
      exact ⟨rfl, rfl, Table.get?_put_self env _ v⟩
  · rintro ⟨e, he⟩
    by_contra hne
    obtain ⟨_, hsource, -⟩ := Program.exists_ofSource_bindingText (v := .int n) hname ⟨hn, hne⟩
    rw [hsource] at he
    cases he
  · rintro rfl
    exact ⟨_, hleast⟩
  · exact congrArg (Except.map _) hleast
  · intro dialect dialect' env env' args args' values values' hargs hargs' hv hv' houtput
    have hprint : ∀ d e as, Event.outputOf ((Node.ofPrint as).exec (.new d) e).events =
        Event.outputOf (Node.printAll d e as).events := fun _ _ _ => rfl
    rw [hprint, hprint, Node.outputOf_printAll hargs fun v h => (hv v h).legible,
      Node.outputOf_printAll hargs' fun v h => (hv' v h).legible] at houtput
    exact Node.eq_of_linesOf_eq hv hv' houtput

/-- The least word and the word next to it, bound to a name that starts like a keyword, and the only
    word that prints as a seven. -/
theorem Value.printed_values_read_back_around_least :
    Token.isName "print_".toList ∧
    runSource .legacy "const print_ = -2147483647".toList =
      .ok ⟨[.bound (.text "print_") (.int (-2147483647)),
          .finished "ConstBinding" (.int (-2147483647))],
        Table.empty.put (.text "print_") (.int (-2147483647)), .ok (.int (-2147483647))⟩ ∧
    runSource .standard "const print_ = -2147483648".toList =
      .error (.unexpected ⟨.illegal, "2147483648", 1, 17⟩ none) ∧
    ∀ n, Word32.Fits n →
      Event.outputOf ((Node.ofPrint [.literal (.int n)]).exec (.new .standard) .empty).events =
        Event.outputOf ((Node.ofPrint [.ofUnary .pos (.literal (.int 7))]).exec (.new .legacy)
          .empty).events →
      n = 7 := by
  have hname : Token.isName "print_".toList := by decide
  obtain ⟨hreads, -, hleast, -, hprints⟩ := printed_values_read_back "print_" hname
  have hnext := (hreads (.int (-2147483647)) ⟨by decide, by decide⟩).1 .legacy
  have htext : (Value.int (-2147483647)).bindingText "print_" =
      "const print_ = -2147483647".toList := by decide +kernel
  have htext' : (Value.int Word32.least).bindingText "print_" =
      "const print_ = -2147483648".toList := by decide +kernel
  have hseven : (Value.int 7).WellFormed := show Word32.Fits 7 by decide
  refine ⟨hname, htext ▸ hnext, htext' ▸ hleast .standard, fun n hn houtput => ?_⟩
  have hvalues := hprints .standard .legacy .empty .empty _ _ [.int n] [.int 7]
    (.cons rfl .nil) (.cons rfl .nil) (List.forall_mem_singleton.mpr hn)
    (List.forall_mem_singleton.mpr hseven) houtput
  cases hvalues
  rfl

end LineScript
