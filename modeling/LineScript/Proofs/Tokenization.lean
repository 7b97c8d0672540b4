-- SUMMARY: Tokens cut the source text without loss into longest matches at exact positions.
import LineScript.Proofs.Lexemes
import Mathlib.Data.List.Induction

/-!
# Tokenization

The machine that reads one character at a time cuts the text into segments. Each segment is the
longest prefix of what is left that a terminal matches, and it is either skipped or the text of one
token, which stands where the characters in front of it end. What the machine does over one segment
is shown first, and a whole text is then cut segment by segment.
-/

namespace LineScript

/-! ## Positions -/

namespace Position

/-- The position behind a text. -/
def afterAll (p : Position) (cs : List Char) : Position := cs.foldl after p

@[simp] theorem afterAll_nil (p : Position) : p.afterAll [] = p := rfl

@[simp] theorem afterAll_cons (p : Position) (c : Char) (cs : List Char) :
    p.afterAll (c :: cs) = (p.after c).afterAll cs := rfl

@[simp] theorem afterAll_append (p : Position) (cs ds : List Char) :
    p.afterAll (cs ++ ds) = (p.afterAll cs).afterAll ds := List.foldl_append

/-- The line on which a text ends. -/
def lineOf (cs : List Char) : Nat := 1 + cs.count '\n'

/-- The column behind a text: one more than the characters since its last newline. -/
def columnOf (cs : List Char) : Nat := 1 + (cs.reverse.takeWhile (· ≠ '\n')).length

theorem afterAll_start (cs : List Char) : start.afterAll cs = ⟨lineOf cs, columnOf cs⟩ := by
  induction cs using List.reverseRecOn with
  | nil => rfl
  | append_singleton cs c ih =>
    rw [afterAll_append, ih, afterAll_cons, afterAll_nil]
    by_cases hc : c = '\n'
    · simp [after, lineOf, columnOf, hc, Nat.add_assoc]
    · simp [after, lineOf, columnOf, hc]
      omega

end Position

namespace Token

/-! ## Runs of the machine -/

theorem Pending.step_of_extend {pending next : Pending} {c : Char} {ts : List Token} (p : Position)
    (h : pending.extend? c = some (ts, next)) : pending.step p c = (ts, next) := by
  simp [Pending.step, h]

theorem Pending.step_of_flush {pending : Pending} {c : Char} (p : Position)
    (h : pending.extend? c = none) :
    pending.step p c = (pending.flush ++ (start p c).1, (start p c).2) := by
  simp [Pending.step, h]

theorem Pending.step_nothing (p : Position) (c : Char) : Pending.nothing.step p c = start p c := rfl

/-- What cannot be extended by the next character is complete. -/
theorem scanFrom_flush {pending : Pending} {cs : List Char} (p : Position)
    (h : ∀ c, cs.head? = some c → pending.extend? c = none) :
    scanFrom pending p cs = pending.flush ++ scanFrom .nothing p cs := by
  cases cs with
  | nil => simp [scanFrom, Pending.flush]
  | cons c cs =>
    simp only [scanFrom, Pending.step_of_flush p (h c rfl), Pending.step_nothing, List.append_assoc]

theorem scanFrom_spaces {run : List Char} (hrun : ∀ c ∈ run, isSpace c) (p : Position)
    (rest : List Char) :
    scanFrom .nothing p (run ++ rest) = scanFrom .nothing (p.afterAll run) rest := by
  induction run generalizing p with
  | nil => rfl
  | cons c run ih =>
    rw [List.forall_mem_cons] at hrun
    simp [scanFrom, Pending.step, Pending.extend?, Pending.flush, Pending.start, hrun.1,
      ih hrun.2]

theorem scanFrom_comment {run : List Char} (hrun : '\n' ∉ run) (p : Position) (rest : List Char) :
    scanFrom .comment p (run ++ rest) = scanFrom .comment (p.afterAll run) rest := by
  induction run generalizing p with
  | nil => rfl
  | cons c run ih =>
    rw [List.mem_cons, not_or] at hrun
    simp [scanFrom, Pending.step, Pending.extend?, Ne.symm hrun.1, ih hrun.2]

/-- What is pending collects the characters of a class, and any other character completes it. -/
structure Collects (pend : Position → List Char → Pending) (f : Char → Bool)
    (kind : List Char → Kind) : Prop where
  extend : ∀ p seen c, f c → (pend p seen).extend? c = some ([], pend p (c :: seen))
  stop : ∀ p seen c, f c = false → (pend p seen).extend? c = none
  flush : ∀ p seen, (pend p seen).flush = [Token.placed p (kind seen.reverse) seen.reverse]

theorem collects_word : Collects .word isNameChar .ofWord where
  extend p seen c h := by simp [Pending.extend?, h]
  stop p seen c h := by simp [Pending.extend?, h]
  flush p seen := rfl

theorem collects_digits : Collects .digits Char.isDigit .ofDigits where
  extend p seen c h := by simp [Pending.extend?, h]
  stop p seen c h := by simp [Pending.extend?, h]
  flush p seen := rfl

theorem Collects.scanFrom {pend : Position → List Char → Pending} {f : Char → Bool}
    {kind : List Char → Kind} {run : List Char} (h : Collects pend f kind)
    (hrun : ∀ c ∈ run, f c) (start p : Position) (seen rest : List Char) :
    scanFrom (pend start seen) p (run ++ rest) =
      scanFrom (pend start (run.reverse ++ seen)) (p.afterAll run) rest := by
  induction run generalizing p seen with
  | nil => rfl
  | cons c run ih =>
    rw [List.forall_mem_cons] at hrun
    have hstep := Pending.step_of_extend p (h.extend start seen c hrun.1)
    simp [Token.scanFrom, hstep, ih hrun.2]

/-! ## Segments -/

/-- A piece of source text: the text of a token, or skipped. -/
structure Segment where
  text : List Char
  kind? : Option Kind

namespace Segment

/-- The segment is what comes next in front of the rest of the text. -/
structure IsNext (s : Segment) (rest : List Char) : Prop where
  nonempty : s.text ≠ []
  longest : IsLongest s.text rest
  lexeme : ∀ k, s.kind? = some k → Lexeme s.text k
  skipped : s.kind? = none → Skipped s.text rest

/-- The token that the segment is behind a text. -/
def token? (before : List Char) (s : Segment) : Option Token :=
  s.kind?.map fun k =>
    ⟨k, String.ofList s.text, Position.lineOf before, Position.columnOf before⟩

/-- The tokens of segments that stand behind a text and behind each other. -/
def tokens (before : List Char) : List Segment → List Token
  | [] => []
  | s :: ss => (s.token? before).toList ++ tokens (before ++ s.text) ss

/-- The machine cuts the segment off the text and goes on with the rest. -/
structure Cuts (text : List Char) (s : Segment) (rest : List Char) : Prop where
  split : text = s.text ++ rest
  next : s.IsNext rest
  scan : ∀ p, scanFrom .nothing p text =
    (s.kind?.map fun k => Token.placed p k s.text).toList ++
      scanFrom .nothing (p.afterAll s.text) rest

/-! ## One segment -/

theorem stop_of_dropWhile {f : Char → Bool} {cs : List Char} {d : Char}
    (h : (cs.dropWhile f).head? = some d) : f d = false := by
  have hstop := List.head?_dropWhile_not f cs
  rwa [h] at hstop

theorem cuts_spaces {c : Char} (hc : isSpace c) (cs : List Char) :
    Cuts (c :: cs) ⟨c :: cs.takeWhile isSpace, none⟩ (cs.dropWhile isSpace) := by
  have hrun : ∀ d ∈ c :: cs.takeWhile isSpace, isSpace d :=
    List.forall_mem_cons.mpr ⟨hc, fun d hd => List.mem_takeWhile_imp hd⟩
  have hsplit : c :: cs = c :: cs.takeWhile isSpace ++ cs.dropWhile isSpace := by simp
  have hmatch : Terminal.spaces.Matches (c :: cs.takeWhile isSpace) := ⟨by simp, hrun⟩
  refine ⟨hsplit, ⟨by simp, ?_, by simp, fun _ => ?_⟩, fun p => ?_⟩
  · refine isLongest_of_stop ⟨.spaces, hmatch⟩ fun d hd => ?_
    rw [follows_of_isSpace hc]
    exact stop_of_dropWhile hd
  · exact .spaces hmatch fun d hd => stop_of_dropWhile hd
  · conv_lhs => rw [hsplit]
    exact scanFrom_spaces hrun p _

theorem cuts_comment (cs : List Char) :
    Cuts ('#' :: cs) ⟨'#' :: cs.takeWhile (· ≠ '\n'), none⟩ (cs.dropWhile (· ≠ '\n')) := by
  have hrun : '\n' ∉ cs.takeWhile (· ≠ '\n') := fun h => by simpa using List.mem_takeWhile_imp h
  have hstop : ∀ d, (cs.dropWhile (· ≠ '\n')).head? = some d → d = '\n' :=
    fun d hd => by simpa using stop_of_dropWhile hd
  have hmatch : Terminal.comment.Matches ('#' :: cs.takeWhile (· ≠ '\n')) := ⟨_, rfl, hrun⟩
  refine ⟨by simp, ⟨by simp, ?_, by simp, fun _ => .comment hmatch hstop⟩, fun p => ?_⟩
  · refine isLongest_of_stop ⟨.comment, hmatch⟩ fun d hd => ?_
    rw [hstop d hd]
    rfl
  · have hopen : scanFrom .nothing p ('#' :: cs) = scanFrom .comment (p.after '#') cs := rfl
    have hcs : cs = cs.takeWhile (· ≠ '\n') ++ cs.dropWhile (· ≠ '\n') := by simp
    have hclose : ∀ d, (cs.dropWhile (· ≠ '\n')).head? = some d →
        Pending.comment.extend? d = none := fun d hd => by simp [Pending.extend?, hstop d hd]
    rw [hopen]
    conv_lhs => rw [hcs]
    rw [scanFrom_comment hrun, scanFrom_flush _ hclose]
    rfl

/-- A run that is collected up to the first character that cannot follow. -/
theorem cuts_run {c : Char} {pend : Position → List Char → Pending} {f : Char → Bool}
    {kind : List Char → Kind} (cs : List Char) (h : Collects pend f kind) (hfollows : follows c = f)
    (hopen : ∀ p, scanFrom .nothing p (c :: cs) = scanFrom (pend p [c]) (p.after c) cs)
    (hlexeme : Lexeme (c :: cs.takeWhile f) (kind (c :: cs.takeWhile f))) :
    Cuts (c :: cs) ⟨c :: cs.takeWhile f, some (kind (c :: cs.takeWhile f))⟩ (cs.dropWhile f) := by
  refine ⟨by simp, ⟨by simp, ?_, ?_, by simp⟩, fun p => ?_⟩
  · refine isLongest_of_stop hlexeme.exists_matches fun d hd => ?_
    rw [hfollows]
    exact stop_of_dropWhile hd
  · rintro k ⟨rfl⟩
    exact hlexeme
  · have hrun : ∀ d ∈ cs.takeWhile f, f d := fun d hd => List.mem_takeWhile_imp hd
    have hcs : cs = cs.takeWhile f ++ cs.dropWhile f := by simp
    have hclose : ∀ d, (cs.dropWhile f).head? = some d →
        (pend p ((cs.takeWhile f).reverse ++ [c])).extend? d = none :=
      fun d hd => h.stop _ _ d (stop_of_dropWhile hd)
    rw [hopen]
    conv_lhs => rw [hcs]
    rw [h.scanFrom hrun, scanFrom_flush _ hclose, h.flush]
    simp

theorem cuts_word {c : Char} (hc : isNameStart c) (cs : List Char) :
    Cuts (c :: cs) ⟨c :: cs.takeWhile isNameChar, some (.ofWord (c :: cs.takeWhile isNameChar))⟩
      (cs.dropWhile isNameChar) := by
  have hname := isNameChar_iff.mpr (.inl hc)
  refine cuts_run cs collects_word (follows_of_isNameStart hc) (fun p => ?_) (lexeme_ofWord ?_)
  · simp [scanFrom, Pending.step_nothing, Pending.start, not_isSpace_of_isNameChar hname,
      ne_hash_of_isNameChar hname, hc]
  · exact ⟨c, _, rfl, hc, fun d hd => List.mem_takeWhile_imp hd⟩

theorem cuts_digits {c : Char} (hc : c.isDigit) (cs : List Char) :
    Cuts (c :: cs)
      ⟨c :: cs.takeWhile Char.isDigit, some (.ofDigits (c :: cs.takeWhile Char.isDigit))⟩
      (cs.dropWhile Char.isDigit) := by
  have hname := isNameChar_iff.mpr (.inr hc)
  have hstart : ¬ isNameStart c := fun hs => not_isDigit_of_isNameStart hs hc
  refine cuts_run cs collects_digits (follows_of_isDigit hc) (fun p => ?_) (lexeme_ofDigits ?_)
  · simp [scanFrom, Pending.step_nothing, Pending.start, not_isSpace_of_isNameChar hname,
      ne_hash_of_isNameChar hname, hstart, hc]
  · exact ⟨by simp, List.forall_mem_cons.mpr ⟨hc, fun d hd => List.mem_takeWhile_imp hd⟩⟩

/-- A character that starts no run. -/
structure IsMark (c : Char) : Prop where
  not_isSpace : ¬ isSpace c
  ne_hash : c ≠ '#'
  not_isNameChar : ¬ isNameChar c

theorem IsMark.not_isNameStart {c : Char} (h : IsMark c) : ¬ isNameStart c :=
  fun hstart => h.not_isNameChar (isNameChar_iff.mpr (.inl hstart))

theorem IsMark.not_isDigit {c : Char} (h : IsMark c) : ¬ c.isDigit :=
  fun hdigit => h.not_isNameChar (isNameChar_iff.mpr (.inr hdigit))

theorem IsMark.start_of_none {c : Char} (h : IsMark c) (hpair : Kind.ofPair? c = none)
    (p : Position) : Pending.start p c = ([Token.placed p (.ofMark c) [c]], .nothing) := by
  simp [Pending.start, h.not_isSpace, h.ne_hash, h.not_isNameStart, h.not_isDigit, hpair]

theorem IsMark.start_of_some {c : Char} {alone withEq : Kind} (h : IsMark c)
    (hpair : Kind.ofPair? c = some (alone, withEq)) (p : Position) :
    Pending.start p c = ([], .mark p c alone withEq) := by
  simp [Pending.start, h.not_isSpace, h.ne_hash, h.not_isNameStart, h.not_isDigit, hpair]

theorem IsMark.follows {c : Char} (h : IsMark c) (d : Char) :
    follows c d = ((Kind.ofPair? c).isSome && d = '=') := by
  simp only [Token.follows, h.not_isSpace, h.ne_hash, h.not_isNameStart, h.not_isDigit,
    Bool.false_eq_true, if_false]
  cases (Kind.ofPair? c).isSome <;> simp

theorem exists_cuts_mark {c : Char} (hc : IsMark c) (cs : List Char) :
    ∃ s rest, Cuts (c :: cs) s rest := by
  cases hpair : Kind.ofPair? c with
  | none =>
    refine ⟨⟨[c], some (.ofMark c)⟩, cs, rfl, ⟨by simp, ?_, ?_, by simp⟩, fun p => ?_⟩
    · have hlexeme := lexeme_ofMark hc.not_isSpace hc.ne_hash hc.not_isNameChar hpair
      refine isLongest_of_stop hlexeme.exists_matches fun d _ => ?_
      simp [hc.follows, hpair]
    · rintro k ⟨rfl⟩
      exact lexeme_ofMark hc.not_isSpace hc.ne_hash hc.not_isNameChar hpair
    · simp [scanFrom, Pending.step_nothing, hc.start_of_none hpair]
  | some kinds =>
    obtain ⟨alone, withEq⟩ := kinds
    have hlexeme := lexeme_of_pair hpair
    have hopen : ∀ p, scanFrom .nothing p (c :: cs) =
        scanFrom (.mark p c alone withEq) (p.after c) cs := by
      intro p
      simp [scanFrom, Pending.step_nothing, hc.start_of_some hpair]
    by_cases hnext : cs.head? = some '='
    · obtain ⟨rest, rfl⟩ : ∃ rest, cs = '=' :: rest := by
        cases cs with
        | nil => cases hnext
        | cons d rest =>
          cases hnext
          exact ⟨rest, rfl⟩
      refine ⟨⟨[c, '='], some withEq⟩, rest, rfl, ⟨by simp, ?_, ?_, by simp⟩, fun p => ?_⟩
      · exact isLongest_of_pair rest (by simp [hpair]) hlexeme.2.exists_matches
      · rintro k ⟨rfl⟩
        exact hlexeme.2
      · rw [hopen]
        simp [scanFrom, Pending.step, Pending.extend?]
    · have hstop : ∀ d, cs.head? = some d → d ≠ '=' := fun d hd heq => hnext (heq ▸ hd)
      refine ⟨⟨[c], some alone⟩, cs, rfl, ⟨by simp, ?_, ?_, by simp⟩, fun p => ?_⟩
      · refine isLongest_of_stop hlexeme.1.exists_matches fun d hd => ?_
        simp [hc.follows, hpair, hstop d hd]
      · rintro k ⟨rfl⟩
        exact hlexeme.1
      · rw [hopen, scanFrom_flush _ fun d hd => by simp [Pending.extend?, hstop d hd]]
        simp [Pending.flush]

/-- The machine cuts a segment off every text that is not empty. -/
theorem exists_cuts (c : Char) (cs : List Char) : ∃ s rest, Cuts (c :: cs) s rest := by
  by_cases hspace : isSpace c
  · exact ⟨_, _, cuts_spaces hspace cs⟩
  by_cases hhash : c = '#'
  · subst hhash
    exact ⟨_, _, cuts_comment cs⟩
  by_cases hname : isNameChar c
  · rcases isNameChar_iff.mp hname with hstart | hdigit
    · exact ⟨_, _, cuts_word hstart cs⟩
    · exact ⟨_, _, cuts_digits hdigit cs⟩
  · exact exists_cuts_mark ⟨hspace, hhash, hname⟩ cs

/-! ## Whole texts -/

/-- The segments of a text, each of which is what comes next in front of the later ones. -/
theorem exists_segments (cs : List Char) :
    ∃ segments : List Segment, segments.flatMap text = cs ∧
      (∀ front s back, segments = front ++ s :: back → s.IsNext (back.flatMap text)) ∧
      ∀ before, scanFrom .nothing (Position.start.afterAll before) cs =
        tokens before segments ++ [Token.placed (Position.start.afterAll (before ++ cs)) .eof []] := by
  induction hlength : cs.length using Nat.strongRecOn generalizing cs with
  | ind n ih =>
    cases cs with
    | nil => exact ⟨[], rfl, by simp, fun before => by simp [scanFrom, Pending.flush, tokens]⟩
    | cons c cs =>
      obtain ⟨s, rest, hcut⟩ := exists_cuts c cs
      have hshorter : rest.length < n := by
        have hpos := List.length_pos_iff.mpr hcut.next.nonempty
        rw [← hlength, hcut.split, List.length_append]
        omega
      obtain ⟨segments, hflat, hnext, hscan⟩ := ih rest.length hshorter rest rfl
      refine ⟨s :: segments, ?_, ?_, ?_⟩
      · rw [List.flatMap_cons, hflat, ← hcut.split]
      · intro front s' back heq
        cases front with
        | nil =>
          obtain ⟨rfl, rfl⟩ := List.cons.inj heq
          rw [hflat]
          exact hcut.next
        | cons s₀ front =>
          obtain ⟨-, htail⟩ := List.cons.inj heq
          exact hnext front s' back htail
      · intro before
        rw [hcut.scan, ← Position.afterAll_append, hscan, hcut.split, tokens, token?,
          List.append_assoc, List.append_assoc, Position.afterAll_start before]
        rfl

theorem mem_tokens {before : List Char} {segments : List Segment} {t : Token}
    (h : t ∈ tokens before segments) :
    ∃ s ∈ segments, s.kind? = some t.kind ∧ t.text = String.ofList s.text := by
  induction segments generalizing before with
  | nil => cases h
  | cons s segments ih =>
    rcases List.mem_append.mp h with h | h
    · simp only [token?, Option.mem_toList, Option.map_eq_some_iff] at h
      obtain ⟨k, hk, rfl⟩ := h
      exact ⟨s, by simp, hk, rfl⟩
    · obtain ⟨s', hs', hkind⟩ := ih h
      exact ⟨s', by simp [hs'], hkind⟩

end Segment

/-! ## Lexemes in front of a boundary -/

/-- No lexeme goes on with the first character of the text. -/
def Boundary (rest : List Char) : Prop :=
  ∀ c, rest.head? = some c → isNameChar c = false ∧ c ≠ '='

theorem boundary_cons {c : Char} (hname : isNameChar c = false) (heq : c ≠ '=')
    (rest : List Char) : Boundary (c :: rest) := by
  rintro d ⟨rfl⟩
  exact ⟨hname, heq⟩

theorem Boundary.not_isDigit {rest : List Char} (h : Boundary rest) :
    ∀ c, rest.head? = some c → c.isDigit = false := by
  intro c hc
  refine Bool.eq_false_iff.mpr fun hdigit => ?_
  have hname := isNameChar_iff.mpr (.inr hdigit)
  rw [(h c hc).1] at hname
  cases hname

/-- A run of a class ends where a character of another class follows. -/
theorem span_of_stop {f : Char → Bool} {run rest : List Char} (hrun : ∀ c ∈ run, f c)
    (hstop : ∀ c, rest.head? = some c → f c = false) :
    (run ++ rest).takeWhile f = run ∧ (run ++ rest).dropWhile f = rest := by
  have hrest : rest.takeWhile f = [] ∧ rest.dropWhile f = rest := by
    cases rest with
    | nil => exact ⟨rfl, rfl⟩
    | cons c rest => simp [hstop c rfl]
  rw [List.takeWhile_append_of_pos hrun, List.dropWhile_append_of_pos hrun, hrest.1, hrest.2,
    List.append_nil]
  exact ⟨rfl, rfl⟩

theorem scanFrom_word {cs rest : List Char} (h : Terminal.name.Matches cs) (hrest : Boundary rest)
    (p : Position) :
    scanFrom .nothing p (cs ++ rest) =
      Token.placed p (.ofWord cs) cs :: scanFrom .nothing (p.afterAll cs) rest := by
  obtain ⟨c, ds, rfl, hc, hds⟩ := h
  obtain ⟨htake, hdrop⟩ := span_of_stop hds fun d hd => (hrest d hd).1
  have hcut := (Segment.cuts_word hc (ds ++ rest)).scan p
  rwa [htake, hdrop] at hcut

theorem scanFrom_digits {cs rest : List Char} (h : Terminal.digits.Matches cs)
    (hrest : Boundary rest) (p : Position) :
    scanFrom .nothing p (cs ++ rest) =
      Token.placed p (.ofDigits cs) cs :: scanFrom .nothing (p.afterAll cs) rest := by
  obtain ⟨hne, hdigits⟩ := h
  obtain ⟨c, ds, rfl⟩ := List.exists_cons_of_ne_nil hne
  rw [List.forall_mem_cons] at hdigits
  obtain ⟨htake, hdrop⟩ := span_of_stop hdigits.2 hrest.not_isDigit
  have hcut := (Segment.cuts_digits hdigits.1 (ds ++ rest)).scan p
  rwa [htake, hdrop] at hcut

/-- A character that may also have an equality sign behind it stands alone. -/
theorem scanFrom_pair {c : Char} {alone withEq : Kind} (hc : Segment.IsMark c)
    (hpair : Kind.ofPair? c = some (alone, withEq)) {rest : List Char} (hrest : Boundary rest)
    (p : Position) :
    scanFrom .nothing p (c :: rest) =
      Token.placed p alone [c] :: scanFrom .nothing (p.after c) rest := by
  have hopen : scanFrom .nothing p (c :: rest) =
      scanFrom (.mark p c alone withEq) (p.after c) rest := by
    simp [scanFrom, Pending.step_nothing, hc.start_of_some hpair]
  have hstop : ∀ d, rest.head? = some d →
      (Pending.mark p c alone withEq).extend? d = none := by
    intro d hd
    simp [Pending.extend?, (hrest d hd).2]
  rw [hopen, scanFrom_flush _ hstop]
  rfl

theorem scanFrom_operator {cs rest : List Char} {k : Kind} (h : (cs, k) ∈ operators)
    (hrest : Boundary rest) (p : Position) :
    scanFrom .nothing p (cs ++ rest) =
      Token.placed p k cs :: scanFrom .nothing (p.afterAll cs) rest := by
  have hmark : ∀ c, c = '>' ∨ c = '<' ∨ c = '=' → Segment.IsMark c := by
    rintro c (rfl | rfl | rfl) <;> exact ⟨by decide, by decide, by decide⟩
  simp only [operators, List.mem_cons, Prod.mk.injEq, List.not_mem_nil, or_false] at h
  rcases h with ⟨rfl, rfl⟩ | ⟨rfl, rfl⟩ | ⟨rfl, rfl⟩ | ⟨rfl, rfl⟩ | ⟨rfl, rfl⟩ | ⟨rfl, rfl⟩ |
    ⟨rfl, rfl⟩ | h
  · rfl
  · rfl
  · rfl
  · rfl
  · exact scanFrom_pair (hmark _ (by decide)) rfl hrest p
  · exact scanFrom_pair (hmark _ (by decide)) rfl hrest p
  · exact scanFrom_pair (hmark _ (by decide)) rfl hrest p
  · rcases h with ⟨rfl, rfl⟩ | ⟨rfl, rfl⟩ | ⟨rfl, rfl⟩ | ⟨rfl, rfl⟩ | ⟨rfl, rfl⟩ | ⟨rfl, rfl⟩ |
      ⟨rfl, rfl⟩ | ⟨rfl, rfl⟩ <;> rfl

theorem ofWord_of_keyword {cs : List Char} {k : Kind} (h : (cs, k) ∈ keywords) :
    Terminal.name.Matches cs ∧ Kind.ofWord cs = k := by
  simp only [keywords, List.mem_cons, Prod.mk.injEq, List.not_mem_nil, or_false] at h
  rcases h with ⟨rfl, rfl⟩ | ⟨rfl, rfl⟩ | ⟨rfl, rfl⟩ | ⟨rfl, rfl⟩ | ⟨rfl, rfl⟩ | ⟨rfl, rfl⟩ |
    ⟨rfl, rfl⟩ | ⟨rfl, rfl⟩ <;>
    exact ⟨⟨_, _, rfl, by decide, List.all_eq_true.mp rfl⟩, by decide⟩

theorem ofWord_of_not_keyword {cs : List Char} (h : ∀ k, (cs, k) ∉ keywords) :
    Kind.ofWord cs = .ident := by
  have hne : ∀ w ∈ keywords, cs ≠ w.1 := by
    rintro ⟨w, k⟩ hw rfl
    exact h k hw
  simp only [keywords, List.forall_mem_cons] at hne
  simp only [Kind.ofWord, hne, if_false]

theorem scanFrom_unknown {c : Char} (h : isUnknown c) {rest : List Char} (hrest : Boundary rest)
    (p : Position) :
    scanFrom .nothing p (c :: rest) =
      Token.placed p .illegal [c] :: scanFrom .nothing (p.after c) rest := by
  simp only [isUnknown, Bool.not_eq_true', Bool.or_eq_false_iff] at h
  obtain ⟨⟨⟨hspace, hnewline⟩, hname⟩, hother⟩ := h
  have hhash : c ≠ '#' := by
    rintro rfl
    cases hother
  have hmark : Segment.IsMark c := ⟨by simp [hspace], hhash, by simp [hname]⟩
  by_cases hbang : c = '!'
  · subst hbang
    exact scanFrom_pair hmark rfl hrest p
  · have hpair : Kind.ofPair? c = none := by
      unfold Kind.ofPair?
      split <;> simp_all
    have hkind : Kind.ofMark c = .illegal := by
      unfold Kind.ofMark
      split <;> simp_all
    simp [scanFrom, Pending.step_nothing, hmark.start_of_none hpair, hkind]

/-- In front of a boundary a lexeme is scanned as the token that it is. -/
theorem Lexeme.scanFrom {cs rest : List Char} {k : Kind} (h : Lexeme cs k) (hrest : Boundary rest)
    (p : Position) :
    Token.scanFrom .nothing p (cs ++ rest) =
      Token.placed p k cs :: Token.scanFrom .nothing (p.afterAll cs) rest := by
  cases h with
  | keyword h =>
    obtain ⟨hname, hkind⟩ := ofWord_of_keyword h
    rw [scanFrom_word hname hrest, hkind]
  | name h hnot => rw [scanFrom_word h hrest, ofWord_of_not_keyword hnot]
  | number h hfits => rw [scanFrom_digits h hrest, Kind.ofDigits, if_pos hfits]
  | oversized h hfits => rw [scanFrom_digits h hrest, Kind.ofDigits, if_neg hfits]
  | operator h => exact scanFrom_operator h hrest p
  | newline => rfl
  | unknown h => exact scanFrom_unknown h hrest p

/-! ## Partitions -/

/-- The text is cut without loss into the segments, each the longest match in front of the later
    ones, and the tokens are those of the segments with the only end of input behind them. -/
structure Partition (source : List Char) (segments : List Segment) (tokens : List Token) :
    Prop where
  lossless : segments.flatMap Segment.text = source
  next : ∀ front s back, segments = front ++ s :: back → s.IsNext (back.flatMap Segment.text)
  tokens_eq : tokens = Segment.tokens [] segments ++
    [⟨.eof, "", Position.lineOf source, Position.columnOf source⟩]
  only_eof : ∀ t ∈ Segment.tokens [] segments, t.kind ≠ .eof
  keyword : ∀ t ∈ tokens, ∀ w ∈ keywords, t.kind = w.2 ↔ t.text = String.ofList w.1

theorem tokens_partition (source : List Char) (tokens : List Token)
    (h : tokenize? source = some tokens) : ∃ segments, Partition source segments tokens := by
  have hscan : tokens = scan source := by
    simp only [tokenize?] at h
    split at h
    · cases h
    · exact (Option.some.inj h).symm
  obtain ⟨segments, hflat, hnext, htokens⟩ := Segment.exists_segments source
  have hlexeme : ∀ t ∈ Segment.tokens [] segments,
      ∃ cs, Lexeme cs t.kind ∧ t.text = String.ofList cs := by
    intro t ht
    obtain ⟨s, hs, hkind, htext⟩ := Segment.mem_tokens ht
    obtain ⟨front, back, hsplit⟩ := List.append_of_mem hs
    exact ⟨s.text, (hnext front s back hsplit).lexeme t.kind hkind, htext⟩
  have hall : tokens = Segment.tokens [] segments ++
      [⟨.eof, "", Position.lineOf source, Position.columnOf source⟩] := by
    rw [hscan, scan, ← Position.afterAll_nil Position.start, htokens [], List.nil_append,
      Position.afterAll_start]
    rfl
  refine ⟨segments, hflat, hnext, hall, ?_, ?_⟩
  · intro t ht
    obtain ⟨cs, hcs, -⟩ := hlexeme t ht
    exact hcs.ne_eof
  · intro t ht w hw
    rw [hall, List.mem_append, List.mem_singleton] at ht
    rcases ht with ht | rfl
    · obtain ⟨cs, hcs, htext⟩ := hlexeme t ht
      rw [htext, String.ofList_inj]
      exact hcs.kind_eq_iff_of_keyword w hw
    · have heof : ∀ w ∈ keywords, Kind.eof ≠ w.2 ∧ w.1 ≠ [] := by decide
      refine iff_of_false (heof w hw).1 fun hempty => (heof w hw).2 ?_
      exact (String.ofList_inj.mp hempty).symm

theorem tokens_partition_two_lines :
    ∃ segments, Partition "constant <= 7 # end\n!x".toList segments
      [⟨.ident, "constant", 1, 1⟩, ⟨.le, "<=", 1, 10⟩, ⟨.int, "7", 1, 13⟩, ⟨.eol, "\n", 1, 20⟩,
       ⟨.illegal, "!", 2, 1⟩, ⟨.ident, "x", 2, 2⟩, ⟨.eof, "", 2, 3⟩] :=
  tokens_partition _ _ (by decide +kernel)

end Token

end LineScript
