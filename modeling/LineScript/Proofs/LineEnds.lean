-- SUMMARY: A carriage return in front of a newline changes no token but the end of its line.
import LineScript.Proofs.JsonText
import LineScript.Proofs.Layout

/-!
# Line ends

A carriage return in front of a newline is white space, or the last character of a comment, and no
token stands behind it on its line but the end of the line. So a text whose carriage returns all
stand there has the same tokens at the same positions as the text without them, as files are read,
except that an end of line behind a carriage return is one column further right. Line by line this
is one fact: the tokens of a line do not change if a carriage return is put behind it.
-/

namespace LineScript

/-! ## Carriage returns in front of newlines -/

namespace Text

/-- Every carriage return has a newline right behind it. -/
def ReturnsPaired (cs : List Char) : Prop :=
  ∀ i < cs.length, cs[i]? = some '\r' → cs[i + 1]? = some '\n'

instance (cs : List Char) : Decidable (ReturnsPaired cs) :=
  inferInstanceAs (Decidable (∀ i < cs.length, _))

theorem returnsPaired_cons {c : Char} {cs : List Char} :
    ReturnsPaired (c :: cs) ↔ (c = '\r' → cs.head? = some '\n') ∧ ReturnsPaired cs := by
  rw [ReturnsPaired, List.length_cons, Nat.forall_lt_succ_left]
  simp [ReturnsPaired, List.head?_eq_getElem?]

/-- A last line has no newline, so it has no carriage return either. -/
theorem ReturnsPaired.last {l : List Char} (h : ReturnsPaired l) (hl : '\n' ∉ l) : '\r' ∉ l := by
  intro hmem
  obtain ⟨i, hi, hreturn⟩ := List.mem_iff_getElem.mp hmem
  have hnewline := h i hi (by rw [List.getElem?_eq_getElem hi, hreturn])
  exact hl (List.mem_of_getElem? hnewline)

/-- A line has no carriage return but the one in front of its newline. -/
theorem ReturnsPaired.line {l rest : List Char} (h : ReturnsPaired (l ++ '\n' :: rest))
    (hl : '\n' ∉ l) :
    ReturnsPaired rest ∧
      ∃ body, '\n' ∉ body ∧ '\r' ∉ body ∧ (l = body ∨ l = body ++ ['\r']) := by
  induction l with
  | nil => exact ⟨(returnsPaired_cons.mp h).2, [], by simp, by simp, .inl rfl⟩
  | cons c l ih =>
    rw [List.mem_cons, not_or] at hl
    obtain ⟨hc, hrest⟩ := returnsPaired_cons.mp h
    obtain ⟨hpaired, body, hnewline, hbody, hends⟩ := ih hrest hl.2
    refine ⟨hpaired, ?_⟩
    by_cases hreturn : c = '\r'
    · cases l with
      | nil => exact ⟨[], by simp, by simp, .inr (by simp [hreturn])⟩
      | cons d l =>
        have hd : d = '\n' := by simpa using hc hreturn
        simp [hd] at hl
    · refine ⟨c :: body, by simp [hl.1, hnewline], by simp [Ne.symm hreturn, hbody], ?_⟩
      exact hends.imp (congrArg (c :: ·)) (congrArg (c :: ·))

theorem unifyNewlines_append {l : List Char} (hl : '\r' ∉ l) (cs : List Char) :
    unifyNewlines (l ++ cs) = l ++ unifyNewlines cs := by
  induction l with
  | nil => rfl
  | cons c l ih =>
    rw [List.mem_cons, not_or] at hl
    simp [unifyNewlines, Ne.symm hl.1, ih hl.2]

/-- Unifying line ends takes out the carriage returns and nothing else. -/
theorem ReturnsPaired.unifyNewlines_eq {cs : List Char} (h : ReturnsPaired cs) :
    unifyNewlines cs = cs.filter (· ≠ '\r') := by
  fun_induction unifyNewlines cs with
  | case1 => rfl
  | case2 cs ih => simp [ih (returnsPaired_cons.mp (returnsPaired_cons.mp h).2).2]
  | case3 c cs hpair ih =>
    obtain ⟨hc, hcs⟩ := returnsPaired_cons.mp h
    by_cases hreturn : c = '\r'
    · obtain ⟨ds, rfl⟩ := List.head?_eq_some_iff.mp (hc hreturn)
      exact absurd rfl (hpair ds hreturn)
    · simp [hreturn, ih hcs]

/-- The line of the given number, counted from one, ends in a carriage return and a newline. -/
def endsInReturn (source : List Char) (line : Nat) : Bool :=
  ((splitLines source)[line - 1]?).any fun l => ['\r', '\n'].isSuffixOf l

theorem endsInReturn_first {l : List Char} (hl : '\n' ∉ l) (rest : List Char) :
    endsInReturn (l ++ '\n' :: rest) 1 ↔ ['\r'] <:+ l := by
  rw [endsInReturn, splitLines_newline hl]
  change ['\r', '\n'].isSuffixOf (l ++ ['\n']) ↔ _
  rw [List.isSuffixOf_iff_suffix, List.suffix_concat_iff]
  constructor
  · rintro (hnil | ⟨t, ht, hsuffix⟩)
    · cases hnil
    · have hconcat : ['\r'] ++ ['\n'] = t ++ ['\n'] := ht
      rwa [List.append_cancel_right hconcat]
  · exact fun h => .inr ⟨['\r'], rfl, h⟩

theorem endsInReturn_later {l : List Char} (hl : '\n' ∉ l) (rest : List Char) {n : Nat}
    (hn : 0 < n) : endsInReturn (l ++ '\n' :: rest) (n + 1) = endsInReturn rest n := by
  obtain ⟨k, rfl⟩ := Nat.exists_eq_add_of_lt hn
  rw [endsInReturn, splitLines_newline hl, endsInReturn]
  simp

end Text

/-! ## Tokens -/

namespace Token

/-- The machine takes a carriage return at the end of a text without a token. -/
theorem lead_return (a : List Char) : lead (a ++ ['\r']) = lead a := by
  have hnothing : Pending.nothing.EndsAt .start := trivial
  obtain ⟨ts, pending, -, hscan⟩ := hnothing.exists_scanFrom a
  have hend := hscan []
  have hreturn : scanFrom pending (Position.start.afterAll a) ['\r'] =
      pending.flush ++ [Token.placed ((Position.start.afterAll a).after '\r') .eof []] := by
    cases pending <;> rfl
  rw [List.append_nil, scanFrom, ← List.append_assoc] at hend
  have hboth := hscan ['\r']
  rw [hreturn, ← List.append_assoc] at hboth
  rw [lead_of_scan hend, lead_of_scan hboth]

theorem Segment.one_le_line {before : List Char} {segments : List Segment} {t : Token}
    (ht : t ∈ tokens before segments) : 1 ≤ t.line := by
  induction segments generalizing before with
  | nil => cases ht
  | cons s segments ih =>
    rcases List.mem_append.mp ht with ht | ht
    · simp only [token?, Option.mem_toList, Option.map_eq_some_iff] at ht
      obtain ⟨k, -, rfl⟩ := ht
      simp only [Position.lineOf]
      omega
    · exact ih ht

theorem one_le_line {source : List Char} {t : Token} (ht : t ∈ scan source) : 1 ≤ t.line := by
  obtain ⟨segments, -, -, hscan⟩ := Segment.exists_segments source
  have hlead : lead source = Segment.tokens [] segments := lead_of_scan (hscan [])
  rw [scan_eq_lead, hlead, List.mem_append, List.mem_singleton] at ht
  rcases ht with ht | rfl
  · exact Segment.one_le_line ht
  · simp only [Position.lineOf]
    omega

/-- The token as it stands in the text with its carriage returns: an end of line that has one in
    front of it is one column further right. -/
def behindReturn (source : List Char) (t : Token) : Token :=
  if t.kind = .eol ∧ Text.endsInReturn source t.line.toNat then { t with column := t.column + 1 }
  else t

theorem behindReturn_of_ne (source : List Char) {t : Token} (ht : t.kind ≠ .eol) :
    t.behindReturn source = t := if_neg fun h => ht h.1

theorem kind_behindReturn (source : List Char) (t : Token) :
    (t.behindReturn source).kind = t.kind := by
  unfold behindReturn
  split <;> rfl

theorem text_behindReturn (source : List Char) (t : Token) :
    (t.behindReturn source).text = t.text := by
  unfold behindReturn
  split <;> rfl

theorem lexemes_map_behindReturn (source : List Char) (ts : List Token) :
    lexemes (ts.map (behindReturn source)) = lexemes ts := by
  rw [lexemes, List.map_map]
  refine List.map_congr_left fun t _ => ?_
  rw [Function.comp_apply, kind_behindReturn, text_behindReturn]

theorem map_behindReturn_lead (source : List Char) {l : List Char} (hl : '\n' ∉ l) :
    (lead l).map (behindReturn source) = lead l := by
  refine (List.map_congr_left fun t ht => ?_).trans (List.map_id _)
  exact behindReturn_of_ne source fun heol => hl ((kind_of_mem_lead ht).2 heol)

/-- Behind a first line, what a text does to a token is what the rest of it does further up. -/
theorem behindReturn_down {l : List Char} (hl : '\n' ∉ l) (rest : List Char) {t : Token}
    (ht : 1 ≤ t.line) :
    (t.down 1).behindReturn (l ++ '\n' :: rest) = (t.behindReturn rest).down 1 := by
  have hline : (t.down 1).line.toNat = t.line.toNat + 1 := by
    simp only [down]
    omega
  unfold behindReturn
  rw [hline, Text.endsInReturn_later hl rest (by omega)]
  have hkind : (t.down 1).kind = t.kind := rfl
  rw [hkind]
  split <;> rfl

/-- The end of a line is where it is without a carriage return in front of it, or one column
    further right. -/
theorem behindReturn_eol {l body : List Char} (hl : '\n' ∉ l) (hnewline : '\n' ∉ body)
    (hreturn : '\r' ∉ body) (hends : l = body ∨ l = body ++ ['\r']) (rest : List Char) :
    (⟨.eol, "\n", Position.lineOf l, Position.columnOf l⟩ : Token) =
      behindReturn (l ++ '\n' :: rest)
        ⟨.eol, "\n", Position.lineOf body, Position.columnOf body⟩ := by
  have hfirst := Text.endsInReturn_first hl rest
  rw [behindReturn, Position.lineOf_eq_one hl, Position.lineOf_eq_one hnewline]
  rcases hends with rfl | rfl
  · have hnot : ¬ Text.endsInReturn (l ++ '\n' :: rest) 1 :=
      fun h => hreturn ((hfirst.mp h).mem (List.mem_singleton_self _))
    exact (if_neg fun h => hnot h.2).symm
  · have hcolumn : Position.columnOf (body ++ ['\r']) = Position.columnOf body + 1 := by
      simp [Position.columnOf]
      omega
    rw [hcolumn]
    exact (if_pos ⟨rfl, hfirst.mpr (List.suffix_append body ['\r'])⟩).symm

/-- The tokens of a text with its carriage returns, from those of the text without them. -/
theorem scan_eq_map_behindReturn {source : List Char} (h : Text.ReturnsPaired source) :
    scan source = (scan (Text.unifyNewlines source)).map (behindReturn source) := by
  induction source using Text.lines_induction with
  | last l hl =>
    rw [Json.unifyNewlines_of_notMem (h.last hl), scan_eq_lead, List.map_append,
      map_behindReturn_lead l hl]
    rfl
  | newline l rest hl ih =>
    obtain ⟨hpaired, body, hnewline, hreturn, hends⟩ := h.line hl
    have hlead : lead l = lead body := by
      rcases hends with rfl | rfl
      · rfl
      · exact lead_return body
    have hunify : Text.unifyNewlines (l ++ '\n' :: rest) =
        body ++ '\n' :: Text.unifyNewlines rest := by
      rcases hends with rfl | rfl
      · rw [Text.unifyNewlines_append hreturn]
        rfl
      · rw [List.append_assoc, Text.unifyNewlines_append hreturn]
        rfl
    have hrest : (scan rest).map (down 1) =
        ((scan (Text.unifyNewlines rest)).map (down 1)).map (behindReturn (l ++ '\n' :: rest)) := by
      rw [ih hpaired, List.map_map, List.map_map]
      exact List.map_congr_left fun t ht => (behindReturn_down hl rest (one_le_line ht)).symm
    rw [scan_newline, hunify, scan_newline, List.map_append, List.map_cons, hlead,
      map_behindReturn_lead _ hnewline, behindReturn_eol hl hnewline hreturn hends rest,
      Position.lineOf_eq_one hl, Position.lineOf_eq_one hnewline, hrest]

end Token

namespace Program

/-- A text whose carriage returns all stand in front of newlines, and the text without them, have
    the same tokens but for the columns of the ends of lines that had a carriage return, and are the
    same program or have the same error at the same token. -/
theorem carriage_returns_do_not_matter (source : List Char) (hpaired : Text.ReturnsPaired source)
    (tokens : List Token) (h : Token.tokenize? source = some tokens) :
    Text.unifyNewlines source = source.filter (· ≠ '\r') ∧
    ∃ tokens', Token.tokenize? (Text.unifyNewlines source) = some tokens' ∧
      tokens = tokens'.map (Token.behindReturn source) ∧
      ((∃ tree, ofSource source = .ok tree ∧ ofSource (Text.unifyNewlines source) = .ok tree) ∨
        ∃ t t' expected, ofSource source = .error (.unexpected t expected) ∧
          ofSource (Text.unifyNewlines source) = .error (.unexpected t' expected) ∧
          t' ∈ tokens' ∧ t = t'.behindReturn source) := by
  refine ⟨hpaired.unifyNewlines_eq, ?_⟩
  obtain ⟨rfl, hshort⟩ := Token.tokenize?_eq_some_iff.mp h
  have hscan := Token.scan_eq_map_behindReturn hpaired
  have hlexemes : Token.lexemes (Token.scan source) =
      Token.lexemes (Token.scan (Text.unifyNewlines source)) := by
    rw [hscan, Token.lexemes_map_behindReturn]
  have hshort' := (Token.hasShortRuns_congr hlexemes).mp hshort
  refine ⟨_, Token.tokenize?_eq_some_iff.mpr ⟨rfl, hshort'⟩, hscan, ?_⟩
  have hrelated : List.Forall₂ (fun t u => u ∈ Token.scan (Text.unifyNewlines source) ∧
      t = u.behindReturn source) (Token.scan source) (Token.scan (Text.unifyNewlines source)) := by
    rw [hscan, List.forall₂_map_left_iff, List.forall₂_same]
    exact fun t ht => ⟨ht, rfl⟩
  have hrelocates : Token.Relocates fun t u => u ∈ Token.scan (Text.unifyNewlines source) ∧
      t = u.behindReturn source := by
    refine ⟨?_, ?_⟩ <;> rintro t u ⟨-, rfl⟩
    · exact Token.kind_behindReturn source u
    · exact Token.text_behindReturn source u
  rcases ofSource_of_forall₂ hrelocates hrelated hshort hshort' with
    hok | ⟨t, t', expected, ⟨hmem, rfl⟩, herror, herror'⟩
  · exact .inl hok
  · exact .inr ⟨_, t', expected, herror, herror', hmem, rfl⟩

/-- A binding and a comment that end in carriage returns, a blank line that does not, and an error
    at the end of a line that does. -/
theorem carriage_returns_do_not_matter_unfinished :
    Text.ReturnsPaired "x = 1 # one\r\n\nprint x +\r\n".toList ∧
    Text.unifyNewlines "x = 1 # one\r\n\nprint x +\r\n".toList =
      "x = 1 # one\n\nprint x +\n".toList ∧
    ∃ t t' expected,
      ofSource "x = 1 # one\r\n\nprint x +\r\n".toList = .error (.unexpected t expected) ∧
      ofSource "x = 1 # one\n\nprint x +\n".toList = .error (.unexpected t' expected) ∧
      t = t'.behindReturn "x = 1 # one\r\n\nprint x +\r\n".toList ∧ t ≠ t' := by
  have hpaired : Text.ReturnsPaired "x = 1 # one\r\n\nprint x +\r\n".toList := by decide
  have hunify : Text.unifyNewlines "x = 1 # one\r\n\nprint x +\r\n".toList =
      "x = 1 # one\n\nprint x +\n".toList := by decide +kernel
  have herror : ofSource "x = 1 # one\r\n\nprint x +\r\n".toList =
      .error (.unexpected ⟨.eol, "\n", 3, 11⟩ none) := by decide +kernel
  have herror' : ofSource "x = 1 # one\n\nprint x +\n".toList =
      .error (.unexpected ⟨.eol, "\n", 3, 10⟩ none) := by decide +kernel
  obtain ⟨-, tokens', -, -, hparsed⟩ := carriage_returns_do_not_matter _ hpaired
    (Token.scan "x = 1 # one\r\n\nprint x +\r\n".toList) (by decide +kernel)
  rw [hunify, herror, herror'] at hparsed
  rcases hparsed with ⟨tree, hok, -⟩ | ⟨t, t', expected, ht, ht', -, hreturn⟩
  · cases hok
  · cases ht
    cases ht'
    exact ⟨hpaired, hunify, _, _, none, herror, herror', hreturn, by decide⟩

end Program

end LineScript
