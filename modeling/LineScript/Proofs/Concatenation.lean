-- SUMMARY: Two texts with a newline between them are read one after the other.
import LineScript.Proofs.Malformed
import Mathlib.Data.List.DropRight

/-!
# Concatenation

No token and no statement goes over a newline. So the tokens of two texts with a newline between
them are those of the two texts, the second ones further down, and the parser gives the first error
of the two or the statements of both. A program then has one statement for each of its newlines, and
one more if there are tokens behind the last of them.
-/

namespace LineScript

/-! ## The last line -/

namespace Text

/-- What stands behind the last newline of a text. -/
def lastLine (cs : List Char) : List Char := cs.rtakeWhile (· ≠ '\n')

theorem lastLine_of_notMem {cs : List Char} (h : '\n' ∉ cs) : lastLine cs = cs := by
  rw [lastLine, List.rtakeWhile_eq_self_iff]
  intro c hc
  rw [decide_eq_true_eq]
  rintro rfl
  exact h hc

theorem lastLine_newline (a b : List Char) : lastLine (a ++ '\n' :: b) = lastLine b := by
  simp only [lastLine, List.rtakeWhile, List.reverse_append, List.reverse_cons, List.append_assoc,
    List.singleton_append, List.takeWhile_append]
  split
  · next hfull =>
    have htake := (List.takeWhile_prefix (· ≠ '\n')).eq_of_length hfull
    rw [htake, List.takeWhile_cons_of_neg (by simp), List.append_nil]
  · rfl

end Text

/-! ## Two texts -/

theorem Token.tokenize?_newline {a b : List Char} {ta tb : List Token}
    (ha : tokenize? a = some ta) (hb : tokenize? b = some tb) :
    ∃ front eof, ta = front ++ [eof] ∧ eof.kind = .eof ∧
      tokenize? (a ++ '\n' :: b) =
        some (front ++ { eof with kind := .eol, text := "\n" } ::
          tb.map (down (Position.lineOf a))) := by
  obtain ⟨rfl, hshorta⟩ := tokenize?_eq_some_iff.mp ha
  obtain ⟨rfl, hshortb⟩ := tokenize?_eq_some_iff.mp hb
  have hlead : ∀ t ∈ lead a, ¬ t.isOversized := by
    rw [scan_eq_lead, List.forall_mem_append] at hshorta
    exact hshorta.1
  refine ⟨lead a, _, scan_eq_lead a, rfl, tokenize?_eq_some_iff.mpr ⟨?_, ?_⟩⟩
  · rw [scan_newline]
  · exact not_isOversized_newline_iff.mpr ⟨hlead, hshortb⟩

namespace Program

/-- How the result for two texts comes from the results for the first one, with its newline, and for
    the second one, which stands `n` lines further down. -/
inductive Joins (n : Nat) :
    Except ParseError Node → Except ParseError Node → Except ParseError Node → Prop where
  | first (t : Token) (expected : Option Expected) (second : Except ParseError Node) :
      Joins n (.error (.unexpected t expected)) second (.error (.unexpected t expected))
  | second (front : List Node) (t : Token) (expected : Option Expected) :
      Joins n (.ok (.program front)) (.error (.unexpected t expected))
        (.error (.unexpected (t.down n) expected))
  | both (front back : List Node) :
      Joins n (.ok (.program front)) (.ok (.program back)) (.ok (.program (front ++ back)))

theorem joins_newline {a b : List Char} (h : Token.HasShortRuns (a ++ '\n' :: b)) :
    Joins (Position.lineOf a) (ofSource (a ++ ['\n'])) (ofSource b)
      (ofSource (a ++ '\n' :: b)) := by
  rcases ofSource_of_hasShortRuns h with ⟨body, hbody⟩ | ⟨t, expected, herror⟩
  · obtain ⟨front, back, hfront, hback, rfl⟩ := ofSource_newline hbody
    rw [hbody, hfront, hback]
    exact .both front back
  · rcases unexpected_of_newline herror with hfirst | ⟨front, u, hfront, hsecond, rfl⟩
    · rw [herror, hfirst]
      exact .first t expected _
    · rw [herror, hfront, hsecond]
      exact .second front u expected

/-! ## The lines of a program -/

/-- Between an end of input and the line in front of it there is room for one statement. -/
theorem length_body_of_line {ts : List Token} {stop : Token} {s : Stream' Token} {body : List Node}
    (hts : ∀ t ∈ ts, t.kind.endsStatement = false) (hstop : stop.kind.endsStatement)
    (hs : s.head.kind = .eof) (h : Grammar.Body (ts ++ₛ Stream'.cons stop s) body) :
    body.length = if ts = [] ∧ stop.kind = .eof then 0 else 1 := by
  by_cases hover : ts = [] ∧ stop.kind = .eof
  · obtain ⟨rfl, hkind⟩ := hover
    have hhead : ([] ++ₛ Stream'.cons stop s).head.kind = .eof := hkind
    rw [(Grammar.body_of_eof hhead).mp h, if_pos ⟨rfl, hkind⟩]
    rfl
  · have hfirst : (ts ++ₛ Stream'.cons stop s).head.kind ≠ .eof := by
      by_cases hne : ts = []
      · subst hne
        exact fun hkind => hover ⟨rfl, hkind⟩
      · exact Line.head_ne_eof hne hts
    obtain ⟨n, rest, -, hrest, rfl⟩ := (Grammar.body_of_line hts hstop hfirst).mp h
    rw [(Grammar.body_of_eof hs).mp hrest, if_neg hover]
    rfl

/-- A line with its newline is one statement, be it a blank one. -/
theorem length_of_terminated {l : List Char} {part : List Node} (hl : '\n' ∉ l)
    (h : ofSource (l ++ ['\n']) = .ok (.program part)) : part.length = 1 := by
  have hends := fun t => Token.not_endsStatement_of_mem_lead (t := t) hl
  have hbody := body_of_ofSource h
  rw [Token.scan_newline, Grammar.stream, Stream'.append_append_stream] at hbody
  simpa using length_body_of_line hends rfl rfl hbody

/-- A line without a newline is one statement if there are tokens in it. -/
theorem length_of_unterminated {l : List Char} {part : List Node} (hl : '\n' ∉ l)
    (h : ofSource l = .ok (.program part)) :
    part.length = if Token.lead l = [] then 0 else 1 := by
  have hends := fun t => Token.not_endsStatement_of_mem_lead (t := t) hl
  have hbody := body_of_ofSource h
  rw [Token.scan_eq_lead, Grammar.stream, Stream'.append_append_stream] at hbody
  simpa using length_body_of_line hends rfl rfl hbody

/-- A program has one statement for each newline and one for tokens behind the last newline, and
    each of its lines alone is the statement in the same place. -/
theorem statement_of_line {source : List Char} {body : List Node}
    (h : ofSource source = .ok (.program body)) :
    body.length = source.count '\n' + (if Token.lead (Text.lastLine source) = [] then 0 else 1) ∧
      ∀ (i : Nat) (line : List Char), (Text.splitLines source)[i]? = some line →
        ofSource line = .ok (.program body[i]?.toList) := by
  induction source using Text.lines_induction generalizing body with
  | last l hl =>
    rw [Text.lastLine_of_notMem hl, List.count_eq_zero.mpr hl, Nat.zero_add]
    refine ⟨length_of_unterminated hl h, fun i line hline => ?_⟩
    have honly : i = 0 ∧ line = l := by
      by_cases hempty : l = []
      · subst hempty
        cases hline
      · rw [Text.splitLines_last hl hempty, List.getElem?_singleton] at hline
        split at hline
        · next hi => exact ⟨hi, (Option.some.inj hline).symm⟩
        · cases hline
    obtain ⟨rfl, rfl⟩ := honly
    rcases ofSource_line hl (.inl rfl) h with ⟨-, rfl⟩ | ⟨n, -, rfl⟩
    · exact h
    · exact h
  | newline l rest hl ih =>
    obtain ⟨front, back, hfront, hback, rfl⟩ := ofSource_newline h
    obtain ⟨n, rfl⟩ := List.length_eq_one_iff.mp (length_of_terminated hl hfront)
    obtain ⟨hlength, hlines⟩ := ih hback
    constructor
    · rw [Text.lastLine_newline, List.length_append, hlength, List.count_append,
        List.count_cons_self, List.count_eq_zero.mpr hl, List.length_singleton]
      omega
    · intro i line hline
      rw [Text.splitLines_newline hl] at hline
      cases i with
      | zero =>
        obtain rfl := Option.some.inj hline
        exact hfront
      | succ i => exact hlines i line hline

/-- Two texts with a newline between them have the tokens of both and the first error of the two or
    the statements of both; and the statements of a program are those of its lines. -/
theorem parsing_is_linewise :
    (∀ a b ta tb, Token.tokenize? a = some ta → Token.tokenize? b = some tb →
      (∃ front eof, ta = front ++ [eof] ∧ eof.kind = .eof ∧
        Token.tokenize? (a ++ '\n' :: b) =
          some (front ++ { eof with kind := .eol, text := "\n" } ::
            tb.map (Token.down (1 + a.count '\n')))) ∧
      Joins (1 + a.count '\n') (ofSource (a ++ ['\n'])) (ofSource b) (ofSource (a ++ '\n' :: b))) ∧
    ∀ source body, ofSource source = .ok (.program body) →
      body.length = source.count '\n' + (if Token.lead (Text.lastLine source) = [] then 0 else 1) ∧
      ∀ (i : Nat) (line : List Char), (Text.splitLines source)[i]? = some line →
        ofSource line = .ok (.program body[i]?.toList) := by
  refine ⟨fun a b ta tb ha hb => ?_, fun source body => statement_of_line⟩
  have htokens := Token.tokenize?_newline ha hb
  refine ⟨htokens, joins_newline ?_⟩
  obtain ⟨front, eof, -, -, hboth⟩ := htokens
  exact Token.exists_tokenize?_iff.mp ⟨_, hboth⟩

/-- An error behind a comment and a blank line, and a program with a blank line and a last line that
    is not terminated. -/
theorem parsing_is_linewise_with_comment :
    Joins 3 (ofSource "x = 1 # one\n\nprint x\n".toList) (ofSource "y = (2".toList)
      (ofSource "x = 1 # one\n\nprint x\ny = (2".toList) ∧
    ofSource "print x".toList = .ok (.program [.ofPrint [.ofName "x"]]) := by
  have hbody : ofSource "x = 1 # one\n\nprint x".toList = .ok (.program
      [.ofBinding "x" (.literal (.int 1)), .blank, .ofPrint [.ofName "x"]]) := by decide +kernel
  refine ⟨?_, (parsing_is_linewise.2 _ _ hbody).2 2 "print x".toList (by decide +kernel)⟩
  exact (parsing_is_linewise.1 "x = 1 # one\n\nprint x".toList "y = (2".toList
    (Token.scan "x = 1 # one\n\nprint x".toList) (Token.scan "y = (2".toList) (by decide +kernel)
    (by decide +kernel)).2

end Program

end LineScript
