-- SUMMARY: Malformed text is reported as such, unless a run of digits is too long to be read.
import LineScript.Cli.Command
import LineScript.Proofs.Lines

/-!
# Malformed text

Every text without an overlong run of digits has tokens, and is a program or has a token that stands
where the grammar does not allow it; the loop and the command report such a token and nothing else
escapes them. A text with an overlong run has no tokens at all, and its failure is not reported.
-/

namespace LineScript

/-! ## Tokens -/

namespace Token

/-- No run of digits in the text is longer than are ever turned into a number. -/
def HasShortRuns (source : List Char) : Prop := ∀ t ∈ scan source, ¬ t.isOversized

theorem exists_tokenize?_iff {source : List Char} :
    (∃ tokens, tokenize? source = some tokens) ↔ HasShortRuns source := by
  constructor
  · rintro ⟨tokens, h⟩
    exact (tokenize?_eq_some_iff.mp h).2
  · intro h
    exact ⟨scan source, tokenize?_eq_some_iff.mpr ⟨rfl, h⟩⟩

/-- A token is the end of input or a lexeme of its kind. -/
theorem lexeme_of_mem_scan {source : List Char} {t : Token} (ht : t ∈ scan source) :
    (t.kind = .eof ∧ t.text = "") ∨ ∃ cs, Lexeme cs t.kind ∧ t.text = String.ofList cs := by
  obtain ⟨segments, -, hnext, hscan⟩ := Segment.exists_segments source
  have hall := hscan []
  rw [Position.afterAll_nil] at hall
  rw [scan, hall, List.mem_append, List.mem_singleton] at ht
  rcases ht with ht | rfl
  · obtain ⟨s, hs, hkind, htext⟩ := Segment.mem_tokens ht
    obtain ⟨front, back, hsplit⟩ := List.append_of_mem hs
    exact .inr ⟨s.text, (hnext front s back hsplit).lexeme t.kind hkind, htext⟩
  · exact .inl ⟨rfl, rfl⟩

/-- A run of digits is a number exactly if its value fits. -/
theorem Lexeme.kind_of_isDigit {cs : List Char} {k : Kind} (h : Lexeme cs k) (hne : cs ≠ [])
    (hdigits : ∀ c ∈ cs, c.isDigit) : k = .ofDigits cs := by
  obtain ⟨c, ds, rfl⟩ := List.exists_cons_of_ne_nil hne
  have hc : c.isDigit := hdigits c (by simp)
  cases h with
  | keyword h => exact absurd hdigits (not_isDigit_of_keyword h)
  | name h =>
    obtain ⟨_, _, heq, hstart, -⟩ := h
    obtain ⟨rfl, rfl⟩ := List.cons.inj heq
    exact absurd hc (not_isDigit_of_isNameStart hstart)
  | number h hfits => rw [Kind.ofDigits, if_pos hfits]
  | oversized h hfits => rw [Kind.ofDigits, if_neg hfits]
  | operator h =>
    have hoperators : operators.all fun w => !w.1.all Char.isDigit := by decide
    have hnot := List.all_eq_true.mp hoperators _ h
    rw [List.all_eq_true.mpr hdigits] at hnot
    cases hnot
  | newline => cases hc
  | unknown h =>
    have hname : isNameChar c := isNameChar_iff.mpr (.inr hc)
    simp [isUnknown, hname] at h

theorem kind_of_mem_scan {source : List Char} {t : Token} (ht : t ∈ scan source)
    (hne : t.text ≠ "") (hdigits : ∀ c ∈ t.text.toList, c.isDigit) :
    t.kind = .ofDigits t.text.toList := by
  rcases lexeme_of_mem_scan ht with ⟨-, hempty⟩ | ⟨cs, hcs, htext⟩
  · exact absurd hempty hne
  · rw [htext, String.toList_ofList] at hdigits ⊢
    refine hcs.kind_of_isDigit ?_ hdigits
    rintro rfl
    exact hne htext

/-- A number of source text is read and fits, unless its run of digits is too long. -/
theorem readable_of_mem_scan {source : List Char} {t : Token} (ht : t ∈ scan source)
    (hshort : ¬ t.isOversized) : t.Readable := by
  intro hint
  rcases lexeme_of_mem_scan ht with ⟨heof, -⟩ | ⟨cs, hcs, htext⟩
  · rw [hint] at heof
    cases heof
  · rw [hint] at hcs
    cases hcs with
    | keyword h => simp [keywords] at h
    | operator h => simp [operators] at h
    | number h hfits =>
      have hlength : cs.length ≤ Numeral.maxDigits := by
        by_contra hlong
        refine hshort ?_
        rw [isOversized, htext, String.toList_ofList, Bool.and_eq_true, decide_eq_true_eq]
        exact ⟨Nat.lt_of_not_le hlong, List.all_eq_true.mpr h.2⟩
      refine ⟨Text.digitsValue cs, ?_, hfits⟩
      rw [htext, Numeral.read?_of_isDigit h.1 h.2, if_pos hlength]

/-- A run of digits does not go over the end of a line. -/
theorem HasShortRuns.line {source line : List Char} (h : HasShortRuns source)
    (hline : line ∈ Text.splitLines source) : HasShortRuns line := by
  induction source using Text.lines_induction with
  | last l hl =>
    by_cases hempty : l = []
    · subst hempty
      cases hline
    · rw [Text.splitLines_last hl hempty, List.mem_singleton] at hline
      rwa [hline]
  | newline l rest hl ih =>
    obtain ⟨hlead, hrest⟩ := not_isOversized_newline_iff.mp h
    rw [Text.splitLines_newline hl, List.mem_cons] at hline
    rcases hline with rfl | hline
    · refine not_isOversized_newline_iff.mpr ⟨hlead, ?_⟩
      decide
    · exact ih hrest hline

/-- A text that is one run of digits has one token besides the end of input. -/
theorem scan_digits {cs : List Char} (hne : cs ≠ []) (h : ∀ c ∈ cs, c.isDigit) :
    Token.placed .start (.ofDigits cs) cs ∈ scan cs := by
  obtain ⟨c, ds, rfl⟩ := List.exists_cons_of_ne_nil hne
  rw [List.forall_mem_cons] at h
  have hcut := (Segment.cuts_digits h.1 ds).scan .start
  rw [List.takeWhile_eq_self_iff.mpr h.2] at hcut
  rw [scan, hcut]
  exact List.mem_append_left _ (by simp)

theorem not_hasShortRuns_of_isDigit {cs : List Char} (hlong : Numeral.maxDigits < cs.length)
    (h : ∀ c ∈ cs, c.isDigit) : ¬ HasShortRuns cs := by
  intro hshort
  have hne : cs ≠ [] := List.ne_nil_of_length_pos (Nat.zero_lt_of_lt hlong)
  refine hshort _ (scan_digits hne h) ?_
  rw [isOversized, placed, String.toList_ofList, Bool.and_eq_true, decide_eq_true_eq]
  exact ⟨hlong, List.all_eq_true.mpr h⟩

theorem tokenize?_of_overlong {source : List Char} (h : ¬ HasShortRuns source) :
    tokenize? source = none := by
  rw [Option.eq_none_iff_forall_ne_some]
  exact fun tokens htokens => h (exists_tokenize?_iff.mp ⟨tokens, htokens⟩)

end Token

/-! ## Programs -/

namespace Program

theorem ofSource_of_hasShortRuns {source : List Char} (h : Token.HasShortRuns source) :
    (∃ body, ofSource source = .ok (.program body)) ∨
      ∃ t expected, ofSource source = .error (.unexpected t expected) := by
  have htokens : Token.tokenize? source = some (Token.scan source) :=
    Token.tokenize?_eq_some_iff.mpr ⟨rfl, h⟩
  have hsource : ofSource source = ofTokens (Token.scan source) := by
    simp only [ofSource, htokens]
  rw [hsource]
  cases hresult : ofTokens (Token.scan source) with
  | ok tree =>
    obtain ⟨body, -, rfl⟩ := ofTokens_eq_ok_iff.mp hresult
    exact .inl ⟨body, rfl⟩
  | error e =>
    have hreadable : ∀ t ∈ Token.scan source, t.Readable :=
      fun t ht => Token.readable_of_mem_scan ht (h t ht)
    obtain ⟨t, expected, rfl⟩ := isUnexpected_of_ofTokens hreadable hresult
    exact .inr ⟨t, expected, rfl⟩

theorem ofSource_of_overlong {source : List Char} (h : ¬ Token.HasShortRuns source) :
    ofSource source = .error .unreadable := by
  simp only [ofSource, Token.tokenize?_of_overlong h]

end Program

/-! ## Reports -/

namespace Repl

theorem answer_of_unexpected {line : List Char} {t : Token} {expected : Option Expected}
    (h : Program.ofSource line = .error (.unexpected t expected)) (level : Int)
    (settings : Settings) (env : Env) :
    answer level settings env line =
      ⟨(Program.sourceNotes line).map Event.parsed ++
        [.printed ("Parse error: " ++ ParseError.unexpectedText t expected ++ "\n")], env, none⟩ := by
  simp only [answer, h, ParseError.report?]

theorem answer_of_overlong {line : List Char} (h : ¬ Token.HasShortRuns line) (level : Int)
    (settings : Settings) (env : Env) :
    (answer level settings env line).failure = some (.parse .unreadable) := by
  simp only [answer, Program.ofSource_of_overlong h, ParseError.report?]

theorem failure?_ne_parse (r : Except RunError Value) (e : ParseError) :
    failure? r ≠ some (.parse e) := by
  cases r <;> simp [failure?]

theorem answer_failure {line : List Char} (h : Token.HasShortRuns line) (level : Int)
    (settings : Settings) (env : Env) (e : ParseError) :
    (answer level settings env line).failure ≠ some (.parse e) := by
  rcases Program.ofSource_of_hasShortRuns h with ⟨body, hbody⟩ | ⟨t, expected, herror⟩
  · simp only [answer, hbody]
    split
    · exact failure?_ne_parse _ e
    · split
      · exact Option.some_ne_none _ ∘ Eq.symm
      · simp
  · rw [answer_of_unexpected herror]
    exact Option.some_ne_none _ ∘ Eq.symm

theorem turn_failure {line : List Char} (h : Token.HasShortRuns line) {level : Int}
    {settings : Settings} {env : Env} {reply : Reply}
    (hturn : turn level settings env line = some reply) (e : ParseError) :
    reply.failure ≠ some (.parse e) := by
  unfold turn at hturn
  split at hturn
  · cases hturn
  · cases hturn
    exact Option.some_ne_none _ ∘ Eq.symm
  · cases hturn
    exact answer_failure h level settings env e

theorem loop_failure {level : Int} {settings : Settings} {interactive : Bool} {env : Env}
    {lines : List (List Char)} (h : ∀ line ∈ lines, Token.HasShortRuns line) (e : ParseError) :
    (loop level settings interactive env lines).failure ≠ some (.parse e) := by
  induction lines generalizing env with
  | nil => simp [loop]
  | cons line lines ih =>
    rw [List.forall_mem_cons] at h
    simp only [loop]
    split
    · simp
    · next reply hreply =>
      split
      · next f hfailure =>
        rw [← hfailure]
        exact turn_failure h.1 hreply e
      · exact ih h.2

theorem run_failure {input : List Char} (h : Token.HasShortRuns input) (level : Int)
    (settings : Settings) (interactive : Bool) (e : ParseError) :
    (run level settings interactive input).failure ≠ some (.parse e) :=
  loop_failure (fun _ => h.line) e

end Repl

theorem Cli.runFile_of_unexpected {disk : Disk} {path : Path} {source : List Char} {t : Token}
    {expected : Option Expected} (hread : readText disk path = .ok source)
    (h : Program.ofSource source = .error (.unexpected t expected)) (level : Int)
    (settings : Settings) :
    runFile level settings disk path =
      ⟨.ok 1, (Program.sourceNotes source).map Event.parsed,
        "Parse error: " ++ ParseError.unexpectedText t expected ++ "\n"⟩ := by
  simp only [runFile, hread, h, ParseError.report?]

namespace Program

/-- A text has tokens exactly if it has no overlong run of digits. Then a run of digits that does
    not fit is an illegal token like any other, the text is a program or has an unexpected token,
    the loop and the command report that token, and the loop over the text never fails by its
    parser. -/
theorem malformed_text_is_reported (source : List Char) :
    ((∃ tokens, Token.tokenize? source = some tokens) ↔ Token.HasShortRuns source) ∧
    (∀ t ∈ Token.scan source, t.text ≠ "" → (∀ c ∈ t.text.toList, c.isDigit) →
      t.kind = if Word32.Fits (Text.digitsValue t.text.toList) then .int else .illegal) ∧
    (Token.HasShortRuns source →
      ((∃ body, ofSource source = .ok (.program body)) ∨
        ∃ t expected, ofSource source = .error (.unexpected t expected) ∧
          (∀ level settings env, Repl.answer level settings env source =
            ⟨(sourceNotes source).map Event.parsed ++
              [.printed ("Parse error: " ++ ParseError.unexpectedText t expected ++ "\n")],
              env, none⟩) ∧
          ∀ level settings disk path, Cli.readText disk path = .ok source →
            Cli.runFile level settings disk path =
              ⟨.ok 1, (sourceNotes source).map Event.parsed,
                "Parse error: " ++ ParseError.unexpectedText t expected ++ "\n"⟩) ∧
      ∀ level settings interactive e,
        (Repl.run level settings interactive source).failure ≠ some (.parse e)) ∧
    (¬ Token.HasShortRuns source → ofSource source = .error .unreadable) := by
  refine ⟨Token.exists_tokenize?_iff, fun t ht => Token.kind_of_mem_scan ht, ?_,
    ofSource_of_overlong⟩
  intro hshort
  refine ⟨?_, Repl.run_failure hshort⟩
  rcases ofSource_of_hasShortRuns hshort with hok | ⟨t, expected, herror⟩
  · exact .inl hok
  · refine .inr ⟨t, expected, herror, Repl.answer_of_unexpected herror, ?_⟩
    intro level settings disk path hread
    exact Cli.runFile_of_unexpected hread herror level settings

/-- A number out of range behind an operator. -/
theorem malformed_text_is_reported_out_of_range :
    ∃ t expected, ofSource "x = 1 +\n 2147483648".toList = .error (.unexpected t expected) ∧
      Repl.answer 3 (.new .standard) .empty "x = 1 +\n 2147483648".toList =
        ⟨(sourceNotes "x = 1 +\n 2147483648".toList).map Event.parsed ++
          [.printed ("Parse error: " ++ ParseError.unexpectedText t expected ++ "\n")],
          .empty, none⟩ := by
  have hshort : Token.HasShortRuns "x = 1 +\n 2147483648".toList := by
    unfold Token.HasShortRuns
    decide +kernel
  rcases ((malformed_text_is_reported _).2.2.1 hshort).1 with ⟨body, hok⟩ | ⟨t, e, herror, hrepl, -⟩
  · have hfails : (ofSource "x = 1 +\n 2147483648".toList).isOk = false := by decide +kernel
    rw [hok] at hfails
    cases hfails
  · exact ⟨t, e, herror, hrepl _ _ _⟩

/-- A run of 4301 digits is out of range and no token, and nothing is reported of it. -/
theorem ofSource_overlong_ones :
    ¬ Word32.Fits (Text.digitsValue (List.replicate 4301 '1')) ∧
    Token.tokenize? (List.replicate 4301 '1') = none ∧
    ofSource (List.replicate 4301 '1') = .error .unreadable ∧
    (Repl.answer 0 (.new .standard) .empty (List.replicate 4301 '1')).failure =
      some (.parse .unreadable) := by
  have hdigits : ∀ c ∈ List.replicate 4301 '1', c.isDigit := by
    intro c hc
    rw [List.eq_of_mem_replicate hc]
    rfl
  have hlength : Numeral.maxDigits < (List.replicate 4301 '1').length := by
    rw [List.length_replicate]
    decide
  have hlong := Token.not_hasShortRuns_of_isDigit hlength hdigits
  exact ⟨by decide +kernel, Token.tokenize?_of_overlong hlong, ofSource_of_overlong hlong,
    Repl.answer_of_overlong hlong _ _ _⟩

end Program

end LineScript
