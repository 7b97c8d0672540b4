-- SUMMARY: The table of terminals, the longest match, and the kinds of lexemes.
import LineScript.Proofs.Numerals
import LineScript.Token.Lexer
import Mathlib.Data.List.TakeWhile

/-!
# Lexemes

What a piece of source text can be, without a machine that cuts it. A terminal of the table matches
a set of texts; the next piece of a text is the longest prefix that some terminal matches, and the
kind of a piece depends on its characters only.
-/

namespace LineScript.Token

/-! ## The table -/

/-- The words that are no names. -/
def keywords : List (List Char × Kind) :=
  [("const".toList, .const), ("print".toList, .print), ("true".toList, .true),
   ("false".toList, .false), ("and".toList, .and), ("or".toList, .or), ("xor".toList, .xor),
   ("not".toList, .not)]

/-- The operators and the punctuation. -/
def operators : List (List Char × Kind) :=
  [("==".toList, .eq), ("!=".toList, .ne), (">=".toList, .ge), ("<=".toList, .le),
   (">".toList, .gt), ("<".toList, .lt), ("=".toList, .assign), ("+".toList, .plus),
   ("-".toList, .minus), ("*".toList, .asterisk), ("/".toList, .slash), ("%".toList, .percent),
   ("(".toList, .lparen), (")".toList, .rparen), (",".toList, .comma)]

/-- No other terminal has a text that consists of this character, or that starts with it, unless it
    is an exclamation mark. -/
def isUnknown (c : Char) : Bool :=
  !(isSpace c || c = '\n' || isNameChar c || "+-*/%=<>(),#".toList.contains c)

/-- The terminals. -/
inductive Terminal where
  | keyword
  | name
  | digits
  | operator
  | newline
  | unknown
  | spaces
  | comment

/-- The texts that a terminal matches. -/
def Terminal.Matches : Terminal → List Char → Prop
  | .keyword, cs => cs ∈ keywords.map Prod.fst
  | .name, cs => ∃ c ds, cs = c :: ds ∧ isNameStart c ∧ ∀ d ∈ ds, isNameChar d
  | .digits, cs => cs ≠ [] ∧ ∀ c ∈ cs, c.isDigit
  | .operator, cs => cs ∈ operators.map Prod.fst
  | .newline, cs => cs = ['\n']
  | .unknown, cs => ∃ c, cs = [c] ∧ isUnknown c
  | .spaces, cs => cs ≠ [] ∧ ∀ c ∈ cs, isSpace c
  | .comment, cs => ∃ ds, cs = '#' :: ds ∧ '\n' ∉ ds

/-- Some terminal matches the text, and none matches a longer prefix of the text and the rest. -/
def IsLongest (cs rest : List Char) : Prop :=
  (∃ terminal : Terminal, terminal.Matches cs) ∧
    ∀ longer, longer <+: cs ++ rest → (∃ terminal : Terminal, terminal.Matches longer) →
      longer.length ≤ cs.length

/-! ## Kinds -/

/-- The text is a lexeme of the kind. -/
inductive Lexeme : List Char → Kind → Prop where
  | keyword {cs : List Char} {k : Kind} (h : (cs, k) ∈ keywords) : Lexeme cs k
  | name {cs : List Char} (h : Terminal.name.Matches cs) (hnot : ∀ k, (cs, k) ∉ keywords) :
      Lexeme cs .ident
  | number {cs : List Char} (h : Terminal.digits.Matches cs)
      (hfits : Word32.Fits (Text.digitsValue cs)) : Lexeme cs .int
  | oversized {cs : List Char} (h : Terminal.digits.Matches cs)
      (hfits : ¬ Word32.Fits (Text.digitsValue cs)) : Lexeme cs .illegal
  | operator {cs : List Char} {k : Kind} (h : (cs, k) ∈ operators) : Lexeme cs k
  | newline : Lexeme ['\n'] .eol
  | unknown {c : Char} (h : isUnknown c) : Lexeme [c] .illegal

/-- The text in front of the rest is dropped: a run of spaces that no space follows, or a comment up
    to the end of its line. -/
inductive Skipped : List Char → List Char → Prop where
  | spaces {cs rest : List Char} (h : Terminal.spaces.Matches cs)
      (hend : ∀ c, rest.head? = some c → isSpace c = false) : Skipped cs rest
  | comment {cs rest : List Char} (h : Terminal.comment.Matches cs)
      (hend : ∀ c, rest.head? = some c → c = '\n') : Skipped cs rest

theorem Lexeme.ne_eof {cs : List Char} {k : Kind} (h : Lexeme cs k) : k ≠ .eof := by
  rintro rfl
  cases h with
  | keyword h => simp [keywords] at h
  | operator h => simp [operators] at h

theorem Lexeme.text_of_eol {cs : List Char} (h : Lexeme cs .eol) : cs = ['\n'] := by
  cases h with
  | keyword h => simp [keywords] at h
  | operator h => simp [operators] at h
  | newline => rfl

/-! ## Character classes by code point -/

theorem isNameStart_iff {c : Char} : isNameStart c ↔
    (65 ≤ c.toNat ∧ c.toNat ≤ 90) ∨ (97 ≤ c.toNat ∧ c.toNat ≤ 122) ∨ c = '_' := by
  have hupper : c.isUpper ↔ 65 ≤ c.toNat ∧ c.toNat ≤ 90 := decide_eq_true_iff
  have hlower : c.isLower ↔ 97 ≤ c.toNat ∧ c.toNat ≤ 122 :=
    (Bool.and_eq_true_iff).trans (and_congr decide_eq_true_iff decide_eq_true_iff)
  have hname : isNameStart c = (c.isUpper || c.isLower || c = '_') := rfl
  rw [hname, Bool.or_eq_true, Bool.or_eq_true, hupper, hlower, decide_eq_true_iff, or_assoc]

theorem isNameChar_iff {c : Char} : isNameChar c ↔ isNameStart c ∨ c.isDigit := by
  simp only [isNameChar, isNameStart, Char.isAlphanum, Bool.or_eq_true, or_right_comm]

theorem isSpace_iff {c : Char} :
    isSpace c ↔ c = ' ' ∨ c = '\t' ∨ c = '\x0c' ∨ c = '\x0b' ∨ c = '\r' := by
  simp only [isSpace, Bool.or_eq_true, decide_eq_true_eq, or_assoc]

theorem not_isDigit_of_isNameStart {c : Char} (h : isNameStart c) : ¬ c.isDigit := by
  rw [Text.isDigit_iff]
  rcases isNameStart_iff.mp h with h | h | rfl
  · omega
  · omega
  · decide

theorem not_isSpace_of_isNameChar {c : Char} (h : isNameChar c) : ¬ isSpace c := by
  rw [isSpace_iff]
  rintro (rfl | rfl | rfl | rfl | rfl) <;> revert h <;> decide

theorem ne_hash_of_isNameChar {c : Char} (h : isNameChar c) : c ≠ '#' := by
  rintro rfl
  revert h
  decide

/-! ## What can follow a first character -/

/-- The characters that can follow a first character within one piece of text. -/
def follows (c : Char) : Char → Bool :=
  if isSpace c then isSpace
  else if c = '#' then (· ≠ '\n')
  else if isNameStart c then isNameChar
  else if c.isDigit then Char.isDigit
  else if (Kind.ofPair? c).isSome then (· = '=')
  else fun _ => false

theorem follows_of_isSpace {c : Char} (h : isSpace c) : follows c = isSpace := by
  simp [follows, h]

theorem follows_of_isNameStart {c : Char} (h : isNameStart c) : follows c = isNameChar := by
  have hname := isNameChar_iff.mpr (.inl h)
  simp [follows, not_isSpace_of_isNameChar hname, ne_hash_of_isNameChar hname, h]

theorem follows_of_isDigit {c : Char} (h : c.isDigit) : follows c = Char.isDigit := by
  have hname := isNameChar_iff.mpr (.inr h)
  have hstart : ¬ isNameStart c := fun hs => not_isDigit_of_isNameStart hs h
  simp [follows, not_isSpace_of_isNameChar hname, ne_hash_of_isNameChar hname, hstart, h]

namespace Terminal

theorem follows_of_matches {terminal : Terminal} {c : Char} {ds : List Char}
    (h : terminal.Matches (c :: ds)) : ∀ d ∈ ds, follows c d := by
  cases terminal with
  | keyword =>
    simp only [Matches, keywords, List.map_cons, List.map_nil, List.mem_cons, List.not_mem_nil,
      or_false] at h
    rcases h with h | h | h | h | h | h | h | h <;> cases h <;>
      apply List.all_eq_true.mp <;> rfl
  | name =>
    obtain ⟨c', ds', heq, hc, hds⟩ := h
    cases heq
    rwa [follows_of_isNameStart hc]
  | digits =>
    have hcs := List.forall_mem_cons.mp h.2
    rw [follows_of_isDigit hcs.1]
    exact hcs.2
  | operator =>
    simp only [Matches, operators, List.map_cons, List.map_nil, List.mem_cons, List.not_mem_nil,
      or_false] at h
    rcases h with h | h | h | h | h | h | h | h | h | h | h | h | h | h | h <;> cases h <;>
      apply List.all_eq_true.mp <;> rfl
  | newline =>
    cases h
    exact List.forall_mem_nil _
  | unknown =>
    obtain ⟨c', heq, -⟩ := h
    cases heq
    exact List.forall_mem_nil _
  | spaces =>
    have hcs := List.forall_mem_cons.mp h.2
    rw [follows_of_isSpace hcs.1]
    exact hcs.2
  | comment =>
    obtain ⟨ds', heq, hds⟩ := h
    cases heq
    intro d hd
    have hne : d ≠ '\n' := fun hnewline => hds (hnewline ▸ hd)
    simpa [follows, isSpace] using hne

/-- Only the equality sign of an operator follows a character that also stands alone. -/
theorem eq_of_matches_pair {terminal : Terminal} {c : Char} {ds : List Char}
    (hc : (Kind.ofPair? c).isSome) (h : terminal.Matches (c :: ds)) : ds = [] ∨ ds = ['='] := by
  have hpair : c = '=' ∨ c = '!' ∨ c = '<' ∨ c = '>' := by
    unfold Kind.ofPair? at hc
    split at hc <;> simp_all
  have hname : ¬ isNameChar c := by rcases hpair with rfl | rfl | rfl | rfl <;> decide
  cases terminal with
  | keyword =>
    simp only [Matches, keywords, List.map_cons, List.map_nil, List.mem_cons, List.not_mem_nil,
      or_false] at h
    rcases h with h | h | h | h | h | h | h | h <;> cases h <;> exact absurd hpair (by decide)
  | name =>
    obtain ⟨c', ds', heq, hstart, -⟩ := h
    cases heq
    exact absurd (isNameChar_iff.mpr (.inl hstart)) hname
  | digits => exact absurd (isNameChar_iff.mpr (.inr (h.2 c (by simp)))) hname
  | operator =>
    simp only [Matches, operators, List.map_cons, List.map_nil, List.mem_cons, List.not_mem_nil,
      or_false] at h
    rcases h with h | h | h | h | h | h | h | h | h | h | h | h | h | h | h <;> cases h <;> decide
  | newline =>
    cases h
    exact .inl rfl
  | unknown =>
    obtain ⟨c', heq, -⟩ := h
    cases heq
    exact .inl rfl
  | spaces =>
    have hspace : ¬ isSpace c := by rcases hpair with rfl | rfl | rfl | rfl <;> decide
    exact absurd (h.2 c (by simp)) hspace
  | comment =>
    obtain ⟨ds', heq, -⟩ := h
    cases heq
    exact absurd hpair (by decide)

end Terminal

/-- A text that a terminal matches is the longest if the next character cannot follow its first. -/
theorem isLongest_of_stop {c : Char} {run rest : List Char}
    (hmatch : ∃ terminal : Terminal, terminal.Matches (c :: run))
    (hstop : ∀ d, rest.head? = some d → follows c d = false) : IsLongest (c :: run) rest := by
  refine ⟨hmatch, ?_⟩
  rintro longer hlonger ⟨terminal, hterminal⟩
  rw [List.cons_append] at hlonger
  rcases List.prefix_cons_iff.mp hlonger with rfl | ⟨ds, rfl, hds⟩
  · simp
  · rw [List.length_cons, List.length_cons, Nat.succ_le_succ_iff]
    by_contra hlong
    obtain ⟨extra, rfl⟩ := List.prefix_of_prefix_length_le (List.prefix_append run rest) hds
      (by omega)
    rw [List.prefix_append_right_inj] at hds
    cases extra with
    | nil => simp at hlong
    | cons d extra =>
      obtain ⟨rest', rfl⟩ := hds
      have hfollows := Terminal.follows_of_matches hterminal d (by simp)
      rw [hstop d rfl] at hfollows
      cases hfollows

theorem isLongest_of_pair {c : Char} (rest : List Char) (hc : (Kind.ofPair? c).isSome)
    (hmatch : ∃ terminal : Terminal, terminal.Matches [c, '=']) : IsLongest [c, '='] rest := by
  refine ⟨hmatch, ?_⟩
  rintro longer hlonger ⟨terminal, hterminal⟩
  rcases List.prefix_cons_iff.mp hlonger with rfl | ⟨ds, rfl, -⟩
  · simp
  · rcases Terminal.eq_of_matches_pair hc hterminal with rfl | rfl
    · simp
    · simp

/-! ## The kinds that the machine gives -/

theorem Lexeme.exists_matches {cs : List Char} {k : Kind} (h : Lexeme cs k) :
    ∃ terminal : Terminal, terminal.Matches cs := by
  cases h with
  | keyword h => exact ⟨.keyword, List.mem_map.mpr ⟨_, h, rfl⟩⟩
  | name h => exact ⟨.name, h⟩
  | number h => exact ⟨.digits, h⟩
  | oversized h => exact ⟨.digits, h⟩
  | operator h => exact ⟨.operator, List.mem_map.mpr ⟨_, h, rfl⟩⟩
  | newline => exact ⟨.newline, rfl⟩
  | unknown h => exact ⟨.unknown, _, rfl, h⟩

theorem lexeme_ofWord {cs : List Char} (h : Terminal.name.Matches cs) :
    Lexeme cs (Kind.ofWord cs) := by
  unfold Kind.ofWord
  split_ifs with h1 h2 h3 h4 h5 h6 h7 h8
  case neg =>
    refine .name h fun k hk => ?_
    simp only [keywords, List.mem_cons, Prod.mk.injEq, List.not_mem_nil, h1, h2, h3, h4, h5, h6, h7,
      h8, false_and, or_self] at hk
  all_goals
    refine .keyword ?_
    subst cs
    decide

theorem lexeme_ofDigits {cs : List Char} (h : Terminal.digits.Matches cs) :
    Lexeme cs (Kind.ofDigits cs) := by
  unfold Kind.ofDigits
  split
  · next hfits => exact .number h hfits
  · next hfits => exact .oversized h hfits

theorem lexeme_of_pair {c : Char} {alone withEq : Kind}
    (h : Kind.ofPair? c = some (alone, withEq)) : Lexeme [c] alone ∧ Lexeme [c, '='] withEq := by
  unfold Kind.ofPair? at h
  split at h <;> cases h
  · exact ⟨.operator (by decide), .operator (by decide)⟩
  · exact ⟨.unknown (by decide), .operator (by decide)⟩
  · exact ⟨.operator (by decide), .operator (by decide)⟩
  · exact ⟨.operator (by decide), .operator (by decide)⟩

theorem lexeme_ofMark {c : Char} (hspace : ¬ isSpace c) (hhash : c ≠ '#') (hname : ¬ isNameChar c)
    (hpair : Kind.ofPair? c = none) : Lexeme [c] (Kind.ofMark c) := by
  unfold Kind.ofMark
  split
  case h_9 => exact .newline
  case h_10 =>
    refine .unknown ?_
    have heq : c ≠ '=' := by
      rintro rfl
      cases hpair
    have hlt : c ≠ '<' := by
      rintro rfl
      cases hpair
    have hgt : c ≠ '>' := by
      rintro rfl
      cases hpair
    simp_all [isUnknown]
  all_goals exact .operator (by decide)

theorem not_isDigit_of_keyword {w : List Char × Kind} (hw : w ∈ keywords) :
    ¬ ∀ c ∈ w.1, c.isDigit := by
  have hall : keywords.all (fun w => !w.1.all Char.isDigit) = true := rfl
  simpa using List.all_eq_true.mp hall w hw

/-- A lexeme has the kind of a keyword exactly if it is that keyword. -/
theorem Lexeme.kind_eq_iff_of_keyword {cs : List Char} {k : Kind} (h : Lexeme cs k) :
    ∀ w ∈ keywords, k = w.2 ↔ cs = w.1 := by
  intro w hw
  cases h with
  | keyword h =>
    have hsame : ∀ a ∈ keywords, ∀ w ∈ keywords, a.2 = w.2 ↔ a.1 = w.1 := by decide
    exact hsame _ h w hw
  | name _ hnot =>
    have hkind : ∀ w ∈ keywords, ¬ Kind.ident = w.2 := by decide
    exact iff_of_false (hkind w hw) fun hcs => hnot w.2 (hcs ▸ hw)
  | number h =>
    have hkind : ∀ w ∈ keywords, ¬ Kind.int = w.2 := by decide
    exact iff_of_false (hkind w hw) fun hcs => not_isDigit_of_keyword hw (hcs ▸ h.2)
  | oversized h =>
    have hkind : ∀ w ∈ keywords, ¬ Kind.illegal = w.2 := by decide
    exact iff_of_false (hkind w hw) fun hcs => not_isDigit_of_keyword hw (hcs ▸ h.2)
  | operator h =>
    have hother : ∀ a ∈ operators, ∀ w ∈ keywords, ¬ a.2 = w.2 ∧ ¬ a.1 = w.1 := by decide
    exact iff_of_false (hother _ h w hw).1 (hother _ h w hw).2
  | newline =>
    have hother : ∀ w ∈ keywords, ¬ Kind.eol = w.2 ∧ ¬ ['\n'] = w.1 := by decide
    exact iff_of_false (hother w hw).1 (hother w hw).2
  | unknown _ =>
    have hkind : ∀ w ∈ keywords, ¬ Kind.illegal = w.2 := by decide
    have hlength : ∀ w ∈ keywords, ¬ 1 = w.1.length := by decide
    exact iff_of_false (hkind w hw) fun hcs => hlength w hw (congrArg List.length hcs)

end LineScript.Token
