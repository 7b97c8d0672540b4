-- SUMMARY: Source text is scanned and parsed line by line.
import LineScript.Proofs.Parsing
import LineScript.Proofs.Relocation
import LineScript.Proofs.Tokenization
import LineScript.Text.Blank
import LineScript.Text.Newline

/-!
# Lines of source text

A newline ends whatever token stands in front of it, and behind it the text is scanned as if it
stood alone, only further down. So the tokens of two texts with a newline between them are those of
the two texts, and the statements are those of the two texts as well. A text that parses therefore
parses line by line, and each of its lines is at most one statement.
-/

namespace LineScript

/-! ## Lines of text -/

namespace Text

theorem splitLines_last {l : List Char} (hl : '\n' ∉ l) (hne : l ≠ []) : splitLines l = [l] := by
  induction l with
  | nil => exact absurd rfl hne
  | cons c l ih =>
    rw [List.mem_cons, not_or] at hl
    rw [splitLines, if_neg (Ne.symm hl.1)]
    cases l with
    | nil => rfl
    | cons d l => rw [ih hl.2 (List.cons_ne_nil d l)]

theorem splitLines_newline {l : List Char} (hl : '\n' ∉ l) (rest : List Char) :
    splitLines (l ++ '\n' :: rest) = (l ++ ['\n']) :: splitLines rest := by
  induction l with
  | nil => rfl
  | cons c l ih =>
    rw [List.mem_cons, not_or] at hl
    rw [List.cons_append, splitLines, if_neg (Ne.symm hl.1), ih hl.2]
    rfl

/-- A text is a last line, or a line with a text behind its newline. -/
@[elab_as_elim]
theorem lines_induction {motive : List Char → Prop} (last : ∀ l, '\n' ∉ l → motive l)
    (newline : ∀ l rest, '\n' ∉ l → motive rest → motive (l ++ '\n' :: rest)) (cs : List Char) :
    motive cs := by
  induction hlength : cs.length using Nat.strongRecOn generalizing cs with
  | ind n ih =>
    by_cases hmem : '\n' ∈ cs
    · obtain ⟨l, rest, rfl, hl⟩ := List.eq_append_cons_of_mem hmem
      refine newline l rest hl (ih rest.length ?_ rest rfl)
      rw [← hlength, List.length_append, List.length_cons]
      omega
    · exact last cs hmem

theorem exists_trim (cs : List Char) :
    ∃ front back, cs = front ++ (trim cs ++ back) ∧ (∀ c ∈ front, isBlank c) ∧
      ∀ c ∈ back, isBlank c := by
  refine ⟨cs.takeWhile isBlank, ((cs.dropWhile isBlank).reverse.takeWhile isBlank).reverse, ?_,
    fun c hc => List.mem_takeWhile_imp hc, fun c hc => ?_⟩
  · rw [trim, trimBoth, ← List.reverse_append, List.takeWhile_append_dropWhile,
      List.reverse_reverse, List.takeWhile_append_dropWhile]
  · exact List.mem_takeWhile_imp (List.mem_reverse.mp hc)

theorem trim_concat {c : Char} (hc : isBlank c) (cs : List Char) :
    trim (cs ++ [c]) = trim cs := by
  unfold trim trimBoth
  rw [List.dropWhile_append]
  split
  · next hempty => simp [List.isEmpty_iff.mp hempty, hc]
  · simp [hc]

end Text

/-! ## Tokens of two texts -/

namespace Position

theorem lineOf_eq_one {cs : List Char} (h : '\n' ∉ cs) : lineOf cs = 1 := by
  rw [lineOf, List.count_eq_zero.mpr h]

theorem lineOf_append {cs : List Char} (h : '\n' ∉ cs) (before : List Char) :
    lineOf (before ++ cs) = lineOf before := by
  rw [lineOf, lineOf, List.count_append, List.count_eq_zero.mpr h, Nat.add_zero]

theorem lineOf_newline (a b : List Char) : lineOf (a ++ '\n' :: b) = lineOf b + lineOf a := by
  simp only [lineOf, List.count_append, List.count_cons_self]
  omega

theorem columnOf_newline (a b : List Char) : columnOf (a ++ '\n' :: b) = columnOf b := by
  simp only [columnOf, List.reverse_append, List.reverse_cons, List.append_assoc,
    List.singleton_append, List.takeWhile_append]
  split <;> simp_all

end Position

namespace Token

/-- The token further down. -/
def down (n : Nat) (t : Token) : Token := { t with line := t.line + n }

/-- The tokens of a text in front of the end of input. -/
def lead (cs : List Char) : List Token := (scan cs).dropLast

theorem lead_of_scan {cs : List Char} {ts : List Token} {t : Token} (h : scan cs = ts ++ [t]) :
    lead cs = ts := by
  rw [lead, h, List.dropLast_concat]

theorem relocates_down (n : Nat) : Relocates fun t u => t = u.down n where
  kind := by
    rintro t u rfl
    rfl
  text := by
    rintro t u rfl
    rfl

theorem Pending.step_newline (pending : Pending) (p : Position) :
    pending.step p '\n' = (pending.flush ++ [Token.placed p .eol ['\n']], .nothing) := by
  cases pending <;> rfl

/-- A newline completes what is pending, whatever stands behind it. -/
theorem exists_scanFrom_newline (pending : Pending) (p : Position) (a : List Char) :
    ∃ ts, scanFrom pending p a = ts ++ [Token.placed (p.afterAll a) .eof []] ∧
      ∀ b, scanFrom pending p (a ++ '\n' :: b) =
        ts ++ Token.placed (p.afterAll a) .eol ['\n'] ::
          scanFrom .nothing ((p.afterAll a).after '\n') b := by
  induction a generalizing pending p with
  | nil =>
    refine ⟨pending.flush, rfl, fun b => ?_⟩
    simp [scanFrom, Pending.step_newline]
  | cons c a ih =>
    obtain ⟨ts, hend, hnewline⟩ := ih (pending.step p c).2 (p.after c)
    refine ⟨(pending.step p c).1 ++ ts, ?_, fun b => ?_⟩
    · simp [scanFrom, hend]
    · simp [scanFrom, hnewline]

theorem Segment.tokens_newline (a before : List Char) (segments : List Segment) :
    tokens (a ++ '\n' :: before) segments =
      (tokens before segments).map (down (Position.lineOf a)) := by
  induction segments generalizing before with
  | nil => rfl
  | cons s segments ih =>
    have htoken : (s.token? (a ++ '\n' :: before)).toList =
        (s.token? before).toList.map (down (Position.lineOf a)) := by
      cases hkind : s.kind? <;> simp [token?, hkind, down, Position.lineOf_newline, Position.columnOf_newline]
    rw [tokens, tokens, List.map_append, htoken, ← ih, List.append_assoc, List.cons_append]

theorem scan_eq_lead (a : List Char) :
    scan a = lead a ++ [⟨.eof, "", Position.lineOf a, Position.columnOf a⟩] := by
  obtain ⟨ts, hend, -⟩ := exists_scanFrom_newline .nothing .start a
  rw [Position.afterAll_start] at hend
  have hscan : scan a = ts ++ [⟨.eof, "", Position.lineOf a, Position.columnOf a⟩] := hend
  rw [lead_of_scan hscan, hscan]

theorem scan_newline (a b : List Char) :
    scan (a ++ '\n' :: b) = lead a ++ ⟨.eol, "\n", Position.lineOf a, Position.columnOf a⟩ ::
      (scan b).map (down (Position.lineOf a)) := by
  obtain ⟨ts, hend, hnewline⟩ := exists_scanFrom_newline .nothing .start a
  obtain ⟨segments, -, -, hscan⟩ := Segment.exists_segments b
  have hlead : lead a = ts := lead_of_scan hend
  -- Both texts are cut into the same segments, the second time behind `a` and the newline.
  have hbehind : scanFrom .nothing ((Position.start.afterAll a).after '\n') b =
      (scan b).map (down (Position.lineOf a)) := by
    have hposition : (Position.start.afterAll a).after '\n' =
        Position.start.afterAll (a ++ ['\n']) := by simp
    have halone : scan b = Segment.tokens [] segments ++
        [Token.placed (Position.start.afterAll b) .eof []] := hscan []
    rw [hposition, hscan, Segment.tokens_newline a [] segments, halone, List.map_append,
      List.append_assoc, List.singleton_append, Position.afterAll_start, Position.afterAll_start,
      Position.lineOf_newline, Position.columnOf_newline]
    rfl
  rw [scan, hnewline, hbehind, hlead, Position.afterAll_start]
  rfl

/-- The tokens in front of the end of input are no ends of input, and no ends of line either unless
    the text has a newline. -/
theorem kind_of_mem_lead {a : List Char} {t : Token} (ht : t ∈ lead a) :
    t.kind ≠ .eof ∧ (t.kind = .eol → '\n' ∈ a) := by
  obtain ⟨segments, hflat, hnext, hscan⟩ := Segment.exists_segments a
  have hlead : lead a = Segment.tokens [] segments := lead_of_scan (hscan [])
  rw [hlead] at ht
  obtain ⟨s, hs, hkind, -⟩ := Segment.mem_tokens ht
  obtain ⟨front, back, hsplit⟩ := List.append_of_mem hs
  have hlexeme := (hnext front s back hsplit).lexeme t.kind hkind
  refine ⟨hlexeme.ne_eof, fun heol => ?_⟩
  rw [heol] at hlexeme
  rw [← hflat]
  exact List.mem_flatMap.mpr ⟨s, hs, by rw [hlexeme.text_of_eol]; exact List.mem_singleton.mpr rfl⟩

theorem not_endsStatement_of_mem_lead {l : List Char} (hl : '\n' ∉ l) {t : Token}
    (ht : t ∈ lead l) : t.kind.endsStatement = false := by
  obtain ⟨heof, heol⟩ := kind_of_mem_lead ht
  simp only [Kind.endsStatement, Bool.or_eq_false_iff, decide_eq_false_iff_not]
  exact ⟨fun h => hl (heol h), heof⟩

theorem Segment.line_of_mem_tokens {before : List Char} {segments : List Segment} {t : Token}
    (ht : t ∈ tokens before segments) (hline : '\n' ∉ segments.flatMap text) :
    t.line = Position.lineOf before := by
  induction segments generalizing before with
  | nil => cases ht
  | cons s segments ih =>
    rw [List.flatMap_cons, List.mem_append, not_or] at hline
    rcases List.mem_append.mp ht with ht | ht
    · simp only [token?, Option.mem_toList, Option.map_eq_some_iff] at ht
      obtain ⟨k, -, rfl⟩ := ht
      rfl
    · rw [ih ht hline.2, Position.lineOf_append hline.1]

theorem line_of_mem_lead {l : List Char} (hl : '\n' ∉ l) {t : Token} (ht : t ∈ lead l) :
    t.line = 1 := by
  obtain ⟨segments, hflat, -, hscan⟩ := Segment.exists_segments l
  have hlead : lead l = Segment.tokens [] segments := lead_of_scan (hscan [])
  rw [hlead] at ht
  exact Segment.line_of_mem_tokens ht (hflat ▸ hl)

theorem tokenize?_eq_some_iff {cs : List Char} {ts : List Token} :
    tokenize? cs = some ts ↔ ts = scan cs ∧ ∀ t ∈ scan cs, ¬ t.isOversized := by
  simp only [tokenize?]
  split
  · next h =>
    obtain ⟨t, ht, hlong⟩ := List.any_eq_true.mp h
    refine iff_of_false ?_ fun hall => hall.2 t ht hlong
    exact fun hnone => Option.some_ne_none ts hnone.symm
  · next h =>
    rw [Bool.not_eq_true, List.any_eq_false] at h
    rw [Option.some.injEq, eq_comm]
    exact (and_iff_left h).symm

theorem not_isOversized_newline_iff {a b : List Char} :
    (∀ t ∈ scan (a ++ '\n' :: b), ¬ t.isOversized) ↔
      (∀ t ∈ lead a, ¬ t.isOversized) ∧ ∀ t ∈ scan b, ¬ t.isOversized := by
  have hnewline : ¬ isOversized ⟨.eol, "\n", Position.lineOf a, Position.columnOf a⟩ := by
    simp [isOversized, Numeral.maxDigits]
  have hdown : ∀ t : Token, isOversized (t.down (Position.lineOf a)) = t.isOversized := fun _ => rfl
  rw [scan_newline, List.forall_mem_append, List.forall_mem_cons, List.forall_mem_map]
  simp only [hdown, and_iff_right hnewline]

end Token

/-! ## Statements of two texts -/

theorem Line.padding_concat {t : Token} (ht : t.kind = .eof) (ts : List Token) :
    padding (ts ++ [t]) = t := by
  simp [padding, ht]

/-- The first line of a list goes up to the first token that ends a statement. -/
theorem Line.cutFrom_line (pad : Token) {seen ts : List Token} {stop : Token}
    (hts : ∀ t ∈ ts, t.kind.endsStatement = false) (hstop : stop.kind.endsStatement)
    (hfirst : seen ≠ [] ∨ ts ≠ [] ∨ stop.kind ≠ .eof) (rest : List Token) :
    cutFrom pad seen (ts ++ stop :: rest) =
      ⟨seen.reverse ++ ts, stop, rest.headD pad⟩ :: cutFrom pad [] rest := by
  induction ts generalizing seen with
  | nil =>
    have hnot : ¬ (stop.kind = .eof ∧ seen = []) := by tauto
    simp [cutFrom, hstop, hnot]
  | cons t ts ih =>
    rw [List.forall_mem_cons] at hts
    have hkind : t.kind ≠ .eof := (Token.kind_ne_of_endsStatement rfl hts.1).symm
    simp [cutFrom, hkind, hts.1, ih hts.2 (.inl (List.cons_ne_nil t seen))]

theorem Statement.parse_ignores_next (ts : List Token) (stop next next' : Token) :
    parse ⟨ts, stop, next⟩ = parse ⟨ts, stop, next'⟩ := rfl

namespace Program

/-- Behind an end of line the cut starts anew. -/
theorem statements_newline (pad pad' : Token) {eol eof : Token} (heol : eol.kind = .eol)
    (heof : eof.kind = .eof) (seen : List Token) {ts : List Token}
    (hts : ∀ t ∈ ts, t.kind ≠ .eof) (rest : List Token) :
    statements (Line.cutFrom pad seen (ts ++ eol :: rest)) =
      (statements (Line.cutFrom pad' seen (ts ++ [eol, eof]))).bind fun front =>
        (statements (Line.cutFrom pad [] rest)).map (front ++ ·) := by
  induction ts generalizing seen with
  | nil =>
    simp only [List.nil_append, Line.cutFrom, heol, heof, Token.Kind.endsStatement, reduceCtorEq,
      decide_true, decide_false, Bool.true_or, Bool.false_and, Bool.false_eq_true,
      List.isEmpty_nil, Bool.and_self, if_true, if_false, statements_cons, List.headD_cons]
    rw [Statement.parse_ignores_next seen.reverse eol (rest.headD pad) eof]
    cases Statement.parse ⟨seen.reverse, eol, eof⟩ <;> rfl
  | cons t ts ih =>
    rw [List.forall_mem_cons] at hts
    simp only [List.cons_append, Line.cutFrom, hts.1, decide_false, Bool.false_and,
      Bool.false_eq_true, if_false]
    split
    · rw [statements_cons, statements_cons, ih [] hts.2]
      rw [Statement.parse_ignores_next seen.reverse t _ ((ts ++ [eol, eof]).headD pad')]
      cases Statement.parse ⟨seen.reverse, t, _⟩ with
      | error stuck => rfl
      | ok s =>
        cases statements (Line.cutFrom pad' [] (ts ++ [eol, eof])) with
        | error e => rfl
        | ok front => cases statements (Line.cutFrom pad [] rest) <;> rfl
    · exact ih (t :: seen) hts.2

theorem ofSource_eq_ok_iff {source : List Char} {body : List Node} :
    ofSource source = .ok (.program body) ↔
      (∀ t ∈ Token.scan source, ¬ t.isOversized) ∧
        statements (Line.cut (Token.scan source)) = .ok body := by
  unfold ofSource
  cases htokens : Token.tokenize? source with
  | none =>
    refine iff_of_false nofun fun h => ?_
    rw [Token.tokenize?_eq_some_iff.mpr ⟨rfl, h.1⟩] at htokens
    cases htokens
  | some tokens =>
    obtain ⟨rfl, hshort⟩ := Token.tokenize?_eq_some_iff.mp htokens
    rw [and_iff_right hshort]
    simp only [ofTokens]
    cases statements (Line.cut (Token.scan source)) <;> simp [Except.map]

theorem ofSource_eq_statements {source : List Char} (h : ∀ t ∈ Token.scan source, ¬ t.isOversized) :
    ofSource source = (statements (Line.cut (Token.scan source))).map .program := by
  rw [ofSource, Token.tokenize?_eq_some_iff.mpr ⟨rfl, h⟩]
  rfl

/-- An unexpected token has been read, and so has every other token of the text. -/
theorem not_isOversized_of_unexpected {source : List Char} {t : Token} {expected : Option Expected}
    (h : ofSource source = .error (.unexpected t expected)) :
    ∀ u ∈ Token.scan source, ¬ u.isOversized := by
  unfold ofSource at h
  split at h
  · cases h
  · next tokens htokens => exact (Token.tokenize?_eq_some_iff.mp htokens).2

/-- The statements behind a newline are those of the text that stands there alone. -/
theorem agree_statements_down (n : Nat) (b : List Char) :
    Agree (fun t u => t = u.down n)
      (statements (Line.cutFrom ((Line.padding (Token.scan b)).down n) []
        ((Token.scan b).map (Token.down n))))
      (statements (Line.cut (Token.scan b))) := by
  have hrelocates := Token.relocates_down n
  have htokens : List.Forall₂ (fun t u => t = u.down n) ((Token.scan b).map (Token.down n))
      (Token.scan b) := by
    rw [List.forall₂_map_left_iff, List.forall₂_same]
    exact fun t _ => rfl
  exact agree_statements hrelocates (Line.relocated_cutFrom hrelocates rfl .nil htokens)

theorem statements_scan_newline (a b : List Char) :
    statements (Line.cut (Token.scan (a ++ '\n' :: b))) =
      (statements (Line.cut (Token.scan (a ++ ['\n'])))).bind fun front =>
        (statements (Line.cutFrom ((Line.padding (Token.scan b)).down (Position.lineOf a)) []
          ((Token.scan b).map (Token.down (Position.lineOf a))))).map (front ++ ·) := by
  have hpad : Line.padding (Token.scan (a ++ '\n' :: b)) =
      (Line.padding (Token.scan b)).down (Position.lineOf a) := by
    rw [Token.scan_newline, Token.scan_eq_lead b, Line.padding_concat rfl, List.map_append,
      ← List.cons_append, ← List.append_assoc]
    exact Line.padding_concat rfl _
  have hlead : ∀ t ∈ Token.lead a, t.kind ≠ .eof := fun t ht => (Token.kind_of_mem_lead ht).1
  rw [Line.cut, hpad, Line.cut, Token.scan_newline, Token.scan_newline]
  exact statements_newline _ _ rfl rfl [] hlead _

/-- Two texts with a newline between them are parsed one after the other: the first one with its
    newline, and then the second one, further down. -/
theorem agree_ofSource_newline {a b : List Char}
    (h : ∀ t ∈ Token.scan (a ++ '\n' :: b), ¬ t.isOversized) :
    ∃ behind, Agree (fun t u => t = u.down (Position.lineOf a)) behind
        (statements (Line.cut (Token.scan b))) ∧
      ofSource (a ++ '\n' :: b) =
        ((statements (Line.cut (Token.scan (a ++ ['\n'])))).bind fun front =>
          behind.map (front ++ ·)).map .program := by
  refine ⟨_, agree_statements_down (Position.lineOf a) b, ?_⟩
  rw [ofSource_eq_statements h, statements_scan_newline]

theorem ofSource_newline {a b : List Char} {body : List Node}
    (h : ofSource (a ++ '\n' :: b) = .ok (.program body)) :
    ∃ front back, ofSource (a ++ ['\n']) = .ok (.program front) ∧
      ofSource b = .ok (.program back) ∧ body = front ++ back := by
  obtain ⟨hshort, -⟩ := ofSource_eq_ok_iff.mp h
  obtain ⟨hshorta, hshortb⟩ := Token.not_isOversized_newline_iff.mp hshort
  have hshort' : ∀ t ∈ Token.scan (a ++ ['\n']), ¬ t.isOversized :=
    Token.not_isOversized_newline_iff.mpr ⟨hshorta, by decide⟩
  obtain ⟨behind, hagree, heq⟩ := agree_ofSource_newline hshort
  rw [heq] at h
  cases hfront : statements (Line.cut (Token.scan (a ++ ['\n']))) with
  | error e =>
    rw [hfront] at h
    cases h
  | ok front =>
    rw [hfront] at h
    cases behind with
    | error e => cases h
    | ok back =>
      have hback := hagree.eq_ok_iff.mp rfl
      exact ⟨front, back, ofSource_eq_ok_iff.mpr ⟨hshort', hfront⟩,
        ofSource_eq_ok_iff.mpr ⟨hshortb, hback⟩, (Node.program.inj (Except.ok.inj h)).symm⟩

theorem ofSource_newline_of_ok {a b : List Char} {front back : List Node}
    (ha : ofSource (a ++ ['\n']) = .ok (.program front)) (hb : ofSource b = .ok (.program back)) :
    ofSource (a ++ '\n' :: b) = .ok (.program (front ++ back)) := by
  obtain ⟨hshorta, hfront⟩ := ofSource_eq_ok_iff.mp ha
  obtain ⟨hshortb, hback⟩ := ofSource_eq_ok_iff.mp hb
  have hlead := (Token.not_isOversized_newline_iff.mp hshorta).1
  have hshort := Token.not_isOversized_newline_iff.mpr ⟨hlead, hshortb⟩
  obtain ⟨behind, hagree, heq⟩ := agree_ofSource_newline hshort
  rw [heq, hfront, hagree.eq_ok_iff.mpr hback]
  rfl

/-- The first error of two texts is that of the first one, or that of the second one if the first
    one is a program. -/
theorem unexpected_of_newline {a b : List Char} {t : Token} {expected : Option Expected}
    (h : ofSource (a ++ '\n' :: b) = .error (.unexpected t expected)) :
    ofSource (a ++ ['\n']) = .error (.unexpected t expected) ∨
      ∃ front u, ofSource (a ++ ['\n']) = .ok (.program front) ∧
        ofSource b = .error (.unexpected u expected) ∧ t = u.down (Position.lineOf a) := by
  have hshort := not_isOversized_of_unexpected h
  obtain ⟨hlead, hshortb⟩ := Token.not_isOversized_newline_iff.mp hshort
  have hshorta : ∀ t ∈ Token.scan (a ++ ['\n']), ¬ t.isOversized :=
    Token.not_isOversized_newline_iff.mpr ⟨hlead, by decide⟩
  obtain ⟨behind, hagree, heq⟩ := agree_ofSource_newline hshort
  rw [heq] at h
  rw [ofSource_eq_statements hshorta, ofSource_eq_statements hshortb]
  cases hfront : statements (Line.cut (Token.scan (a ++ ['\n']))) with
  | error e =>
    rw [hfront] at h
    exact .inl h
  | ok front =>
    rw [hfront] at h
    generalize statements (Line.cut (Token.scan b)) = second at hagree
    cases hagree with
    | ok back => cases h
    | error herror =>
      cases h
      cases herror with
      | unexpected hdown => exact .inr ⟨front, _, rfl, rfl, hdown⟩

/-! ## One line -/

theorem body_of_ofSource {source : List Char} {body : List Node}
    (h : ofSource source = .ok (.program body)) :
    Grammar.Body (Grammar.stream (Token.scan source)) body := by
  obtain ⟨-, hbody⟩ := ofSource_eq_ok_iff.mp h
  have htokens : ofTokens (Token.scan source) = .ok (.program body) := by
    rw [ofTokens, hbody]
    rfl
  obtain ⟨body', hderives, heq⟩ := ofTokens_eq_ok_iff.mp htokens
  obtain rfl := Node.program.inj heq
  exact hderives

/-- A line that parses, with or without a newline behind it, is at most one statement. -/
theorem ofSource_line {l line : List Char} {part : List Node} (hl : '\n' ∉ l)
    (hline : line = l ∨ line = l ++ ['\n']) (h : ofSource line = .ok (.program part)) :
    (Token.lead l = [] ∧ part = []) ∨ ∃ n, Grammar.Stmt (Token.lead l) n ∧ part = [n] := by
  have hends : ∀ t ∈ Token.lead l, t.kind.endsStatement = false :=
    fun t ht => Token.not_endsStatement_of_mem_lead hl ht
  -- In both cases an end of input follows the token that ends the line.
  obtain ⟨stop, s, hstop, hs, hbody⟩ : ∃ stop s, stop.kind.endsStatement ∧ s.head.kind = .eof ∧
      Grammar.Body (Token.lead l ++ₛ Stream'.cons stop s) part := by
    have hbody := body_of_ofSource h
    rcases hline with rfl | rfl
    · rw [Token.scan_eq_lead, Grammar.stream, Stream'.append_append_stream] at hbody
      exact ⟨_, _, rfl, rfl, hbody⟩
    · rw [Token.scan_newline, Grammar.stream, Stream'.append_append_stream] at hbody
      exact ⟨_, _, rfl, rfl, hbody⟩
  by_cases hfirst : (Token.lead l ++ₛ Stream'.cons stop s).head.kind = .eof
  · refine .inl ⟨?_, (Grammar.body_of_eof hfirst).mp hbody⟩
    by_contra hne
    exact Line.head_ne_eof hne hends hfirst
  · obtain ⟨n, rest, hn, hrest, rfl⟩ := (Grammar.body_of_line hends hstop hfirst).mp hbody
    rw [(Grammar.body_of_eof hs).mp hrest]
    exact .inr ⟨n, hn, rfl⟩

end Program

end LineScript
